/-
Laws of differences. The difference of two snapshots lists exactly the fields that differ, in a
fixed order and under names that are all different, and it has a flag for each other part. So, as
long as the register counts agree, it is empty only between equal snapshots, and setting the listed
fields leads from the one to the other. Taken the other way round it is the same with both sides
exchanged, and nothing is in it that is in neither half of a way over a third snapshot.

Both lists are made in one way from the fields of a part and their values; the laws are proved of
that, and the processor and the timers owe only how their fields are read and set.
-/
import ChipVm.Proofs.Json.Tokens
import ChipVm.Snapshot.Diff
import Mathlib.Data.List.Nodup

namespace ChipVm

/-! ## Names -/

namespace Digits

theorem hexValues_lowerHex (n : Nat) :
    (lowerHex n).toList.map hexValue? = (toBase 16 n).map some := by
  rw [lowerHex, String.toList_ofList, List.map_map]
  exact List.map_congr_left fun d hd => hexValue?_lower (lt_of_mem_toBase (by decide) hd)

theorem lowerHex_injective : Function.Injective lowerHex := by
  intro i j h
  have hdigits : (toBase 16 i).map some = (toBase 16 j).map some := by
    rw [← hexValues_lowerHex, h, hexValues_lowerHex]
  have hbase : toBase 16 i = toBase 16 j :=
    (List.map_inj_right fun _ _ => Option.some.inj).1 hdigits
  rw [← ofBase_toBase 16 i, hbase, ofBase_toBase]

end Digits

namespace CpuField

/-- The name of a register is its numeral to base sixteen behind a letter: lower-case digits, of
which the first is zero in that of zero only. -/
theorem exists_name_register (i : Nat) :
    ∃ ds, (register i).name = "v" ++ String.ofList (ds.map Digits.lower) ∧ (∀ d ∈ ds, d < 16) ∧
      (ds.head? = some 0 → ds = [0]) ∧ Digits.ofBase 16 ds = i := by
  refine ⟨Digits.toBase 16 i, rfl, fun d hd => Digits.lt_of_mem_toBase (by decide) hd,
    fun hhead => ?_, Digits.ofBase_toBase 16 i⟩
  obtain ⟨ds, hds⟩ := List.head?_eq_some_iff.1 hhead
  rw [hds, Digits.eq_nil_of_toBase hds]

theorem head_name_register (i : Nat) : (register i).name.toList.head? = some 'v' := by
  rw [name, String.toList_append]
  rfl

theorem name_injective : Function.Injective name := by
  intro f g h
  -- No name but those of registers begins with their letter.
  have hhead : f.name.toList.head? = g.name.toList.head? := by rw [h]
  cases f with
  | register i =>
    rw [head_name_register] at hhead
    cases g with
    | register j =>
      rw [name, name, String.append_right_inj] at h
      rw [Digits.lowerHex_injective h]
    | _ => simp [name] at hhead
  | _ =>
    cases g with
    | register j =>
      rw [head_name_register] at hhead
      simp [name] at hhead
    | _ => first | rfl | simp [name] at h

end CpuField

theorem TimerField.name_injective : Function.Injective TimerField.name := by
  intro f g h
  cases f <;> cases g <;> first | rfl | simp [name] at h

/-! ## Lists of changes -/

/-- A change the other way round. -/
def Change.swap {Field : Type} (c : Change Field) : Change Field := ⟨c.field, c.after, c.before⟩

namespace Diff

section Changes

variable {F : Type} {fields : List F} {v w u : F → FieldValue}

/-- The changes of some fields, in their order. -/
def changes (fields : List F) (v w : F → FieldValue) : List (Change F) :=
  fields.flatMap fun f => Change.between f (v f) (w f)

theorem changes_eq_map (fields : List F) (v w : F → FieldValue) :
    changes fields v w =
      (fields.filter fun f => decide (v f ≠ w f)).map fun f => ⟨f, v f, w f⟩ := by
  induction fields with
  | nil => rfl
  | cons f fields ih =>
    rw [changes, List.flatMap_cons, Change.between]
    by_cases h : v f = w f
    · rw [if_pos h, List.filter_cons_of_neg (by simpa using h)]
      exact ih
    · rw [if_neg h, List.filter_cons_of_pos (by simpa using h), List.map_cons, ← ih]
      rfl

theorem exists_mem_changes_iff {f : F} :
    (∃ x ∈ changes fields v w, x.field = f) ↔ f ∈ fields ∧ v f ≠ w f := by
  simp [changes_eq_map]

theorem changes_eq_nil_iff : changes fields v w = [] ↔ ∀ f ∈ fields, v f = w f := by
  simp [changes_eq_map]

theorem changes_swap (fields : List F) (v w : F → FieldValue) :
    changes fields w v = (changes fields v w).map Change.swap := by
  simp only [changes_eq_map, List.map_map, ne_comm]
  rfl

/-- What changes on the whole way changes on one part of it. -/
theorem changes_trans (w : F → FieldValue) {x : Change F} (hx : x ∈ changes fields v u) :
    ∃ y ∈ changes fields v w ++ changes fields w u, y.field = x.field := by
  obtain ⟨hmem, hne⟩ := exists_mem_changes_iff.1 ⟨x, hx, rfl⟩
  by_cases h : v x.field = w x.field
  · obtain ⟨y, hy, hfield⟩ := exists_mem_changes_iff.2 ⟨hmem, fun hw => hne (h.trans hw)⟩
    exact ⟨y, List.mem_append_right _ hy, hfield⟩
  · obtain ⟨y, hy, hfield⟩ := exists_mem_changes_iff.2 ⟨hmem, h⟩
    exact ⟨y, List.mem_append_left _ hy, hfield⟩

theorem nodup_names {name : F → String} (hname : Function.Injective name) (hfields : fields.Nodup)
    (v w : F → FieldValue) : ((changes fields v w).map fun c => name c.field).Nodup := by
  rw [changes_eq_map, List.map_map]
  exact (hfields.filter _).map hname

end Changes

/-! ## Setting what has changed -/

/-- A part with each listed field set to its value afterwards. -/
def patch {S F : Type} (set : S → F → FieldValue → S) (s : S) (cs : List (Change F)) : S :=
  cs.foldl (fun s c => set s c.field c.after) s

/-- A field that is listed takes its value afterwards and any other one keeps its own, where setting
one field, the shape of the part being the same, leaves the others and the shape alone. -/
theorem value_patch {S F : Type} [DecidableEq F] {value : S → F → FieldValue}
    {set : S → F → FieldValue → S} (shape : S → Prop) {fields : List F} {b : S}
    (hset : ∀ s f, shape s → f ∈ fields → shape (set s f (value b f)) ∧
      ∀ g, value (set s f (value b f)) g = if g = f then value b f else value s g)
    (v : F → FieldValue) {s : S} (hs : shape s) :
    shape (patch set s (changes fields v (value b))) ∧
      ∀ g, value (patch set s (changes fields v (value b))) g =
        if g ∈ fields ∧ v g ≠ value b g then value b g else value s g := by
  induction fields generalizing s with
  | nil => exact ⟨hs, fun g => by simp [patch, changes]⟩
  | cons f fields ih =>
    have hrest {s : S} (hs : shape s) :=
      ih (fun s f hs hf => hset s f hs (List.mem_cons_of_mem _ hf)) hs
    by_cases h : v f = value b f
    · have hcons : changes (f :: fields) v (value b) = changes fields v (value b) := by
        rw [changes, List.flatMap_cons, Change.between, if_pos h]
        rfl
      rw [hcons]
      refine ⟨(hrest hs).1, fun g => ((hrest hs).2 g).trans ?_⟩
      by_cases hg : g = f
      · subst hg
        simp [h]
      · simp [hg]
    · have hcons : changes (f :: fields) v (value b) =
          ⟨f, v f, value b f⟩ :: changes fields v (value b) := by
        rw [changes, List.flatMap_cons, Change.between, if_neg h]
        rfl
      obtain ⟨hshape, hvalue⟩ := hset s f hs List.mem_cons_self
      rw [hcons, patch, List.foldl_cons]
      refine ⟨(hrest hshape).1, fun g => ((hrest hshape).2 g).trans ?_⟩
      rw [hvalue g]
      by_cases hg : g = f
      · subst hg
        simp [h]
      · simp [hg]

end Diff

/-! ## The processor -/

namespace CpuField

/-- The fields of a processor part with a number of registers, in order. -/
def upTo (n : Nat) : List CpuField :=
  (List.range n).map .register ++ [.index, .pc, .depth, .stack, .completed]

theorem nodup_upTo (n : Nat) : (upTo n).Nodup := by
  refine List.nodup_append.2 ⟨?_, by decide, ?_⟩
  · exact List.nodup_range.map fun i j h => CpuField.register.inj h
  · intro f hf g hg h
    obtain ⟨i, -, rfl⟩ := List.mem_map.1 hf
    subst h
    simp at hg

theorem register_mem_upTo {n i : Nat} : register i ∈ upTo n ↔ i < n := by
  simp [upTo]

end CpuField

namespace CpuSnapshot

variable {a b : CpuSnapshot}

/-- What a field holds. -/
def value (s : CpuSnapshot) : CpuField → FieldValue
  | .register i => .number (s.registers.getD i 0)
  | .index => .number s.index
  | .pc => .number s.pc
  | .depth => .number s.depth
  | .stack => .addresses s.stack
  | .completed => .number s.completed

/-- The same part with another value in a field, if it is of the kind that the field holds. -/
def set (s : CpuSnapshot) : CpuField → FieldValue → CpuSnapshot
  | .register i, .number n => { s with registers := s.registers.set i n }
  | .index, .number n => { s with index := n }
  | .pc, .number n => { s with pc := n }
  | .depth, .number n => { s with depth := n }
  | .stack, .addresses ns => { s with stack := ns }
  | .completed, .number n => { s with completed := n }
  | _, _ => s

theorem ext_value (hcount : a.registers.length = b.registers.length)
    (h : ∀ f ∈ CpuField.upTo a.registers.length, a.value f = b.value f) : a = b := by
  have hregisters : a.registers = b.registers := by
    refine List.ext_getElem hcount fun i ha hb => ?_
    have hi := h (.register i) (CpuField.register_mem_upTo.2 ha)
    simpa [value, ha, hb] using hi
  obtain ⟨registers, index, pc, depth, stack, completed⟩ := a
  obtain ⟨registers', index', pc', depth', stack', completed'⟩ := b
  subst hregisters
  simpa [CpuField.upTo, value] using fun f hf => h f (List.mem_append_right _ hf)

theorem value_set {s : CpuSnapshot} {f : CpuField} (b : CpuSnapshot)
    (hf : f ∈ CpuField.upTo s.registers.length) :
    (s.set f (b.value f)).registers.length = s.registers.length ∧
      ∀ g, (s.set f (b.value f)).value g = if g = f then b.value f else s.value g := by
  cases f with
  | register i =>
    have hi := CpuField.register_mem_upTo.1 hf
    refine ⟨by simp [set, value], fun g => ?_⟩
    cases g with
    | register j =>
      by_cases hj : j = i
      · subst hj
        simp [set, value, hi]
      · simp [set, value, hj, Ne.symm hj]
    | _ => rfl
  | _ =>
    refine ⟨rfl, fun g => ?_⟩
    cases g <;> rfl

/-- A processor part with each listed field set to its value afterwards. -/
def patch (s : CpuSnapshot) (cs : List (Change CpuField)) : CpuSnapshot := Diff.patch set s cs

end CpuSnapshot

namespace Diff

/-- The changes of registers are those of as many as both sides have. -/
theorem registers_eq_changes (i : Nat) (before after : List Int) :
    registers i before after =
      (List.range (min before.length after.length)).flatMap fun k =>
        Change.between (.register (i + k)) (.number (before.getD k 0)) (.number (after.getD k 0)) := by
  induction before generalizing i after with
  | nil => simp [registers]
  | cons x before ih =>
    cases after with
    | nil => simp [registers]
    | cons y after =>
      rw [registers, ih, List.length_cons, List.length_cons, Nat.succ_min_succ,
        List.range_succ_eq_map, List.flatMap_cons, List.flatMap_map]
      simp [Nat.add_assoc, Nat.add_comm 1]

theorem ofCpu_eq_changes (a b : CpuSnapshot) :
    ofCpu a b =
      changes (CpuField.upTo (min a.registers.length b.registers.length)) a.value b.value := by
  rw [ofCpu, registers_eq_changes, changes, CpuField.upTo, List.flatMap_append, List.flatMap_map]
  simp [CpuSnapshot.value]

theorem ofCpu_eq_changes_of_count {a b : CpuSnapshot}
    (hcount : a.registers.length = b.registers.length) :
    ofCpu a b = changes (CpuField.upTo a.registers.length) a.value b.value := by
  rw [ofCpu_eq_changes, ← hcount, Nat.min_self]

theorem patch_ofCpu {a b : CpuSnapshot} (hcount : a.registers.length = b.registers.length) :
    a.patch (ofCpu a b) = b := by
  have hset (s : CpuSnapshot) (f : CpuField) (hs : s.registers.length = a.registers.length)
      (hf : f ∈ CpuField.upTo a.registers.length) :
      (s.set f (b.value f)).registers.length = a.registers.length ∧
        ∀ g, (s.set f (b.value f)).value g = if g = f then b.value f else s.value g := by
    obtain ⟨hlength, hvalue⟩ := CpuSnapshot.value_set b (hs ▸ hf)
    exact ⟨hlength.trans hs, hvalue⟩
  obtain ⟨hlength, hvalue⟩ :=
    value_patch (fun s : CpuSnapshot => s.registers.length = a.registers.length) hset a.value rfl
  rw [CpuSnapshot.patch, ofCpu_eq_changes_of_count hcount]
  refine CpuSnapshot.ext_value (hlength.trans hcount) fun f hf => ?_
  rw [hlength] at hf
  rw [hvalue]
  by_cases h : a.value f = b.value f
  · simp [h]
  · simp [hf, h]

end Diff

/-! ## The timers -/

/-- The fields of the timer part, in order. -/
def TimerField.all : List TimerField := [.delay, .sound]

namespace TimerSnapshot

/-- What a field holds. -/
def value (s : TimerSnapshot) : TimerField → FieldValue
  | .delay => .number s.delay
  | .sound => .number s.sound

/-- The same part with another value in a field, if it is a number. -/
def set (s : TimerSnapshot) : TimerField → FieldValue → TimerSnapshot
  | .delay, .number n => { s with delay := n }
  | .sound, .number n => { s with sound := n }
  | _, _ => s

/-- A timer part with each listed field set to its value afterwards. -/
def patch (s : TimerSnapshot) (cs : List (Change TimerField)) : TimerSnapshot :=
  Diff.patch set s cs

theorem value_set {s : TimerSnapshot} (f : TimerField) (b : TimerSnapshot) (g : TimerField) :
    (s.set f (b.value f)).value g = if g = f then b.value f else s.value g := by
  cases f <;> cases g <;> rfl

theorem ext_value {a b : TimerSnapshot} (h : ∀ f ∈ TimerField.all, a.value f = b.value f) :
    a = b := by
  obtain ⟨delay, sound⟩ := a
  obtain ⟨delay', sound'⟩ := b
  simpa [TimerField.all, value] using h

end TimerSnapshot

namespace Diff

theorem ofTimers_eq_changes (a b : TimerSnapshot) :
    ofTimers a b = changes TimerField.all a.value b.value := by
  simp [ofTimers, changes, TimerField.all, TimerSnapshot.value]

theorem patch_ofTimers (a b : TimerSnapshot) : a.patch (ofTimers a b) = b := by
  have hset (s : TimerSnapshot) (f : TimerField) (_ : True) (_ : f ∈ TimerField.all) :
      True ∧ ∀ g, (s.set f (b.value f)).value g = if g = f then b.value f else s.value g :=
    ⟨trivial, TimerSnapshot.value_set f b⟩
  obtain ⟨-, hvalue⟩ := value_patch (fun _ => True) hset a.value trivial
  rw [TimerSnapshot.patch, ofTimers_eq_changes]
  refine TimerSnapshot.ext_value fun f hf => ?_
  rw [hvalue]
  by_cases h : a.value f = b.value f
  · simp [h]
  · simp [hf, h]

/-! ## Whole snapshots -/

/-- Whether a difference tells exactly how a snapshot differs from an earlier one: by the fields of
both, as many registers as both have, under different names, and by whether each other part does. -/
structure Tells (d : Diff) (a b : Snapshot) : Prop where
  cpu : d.cpu =
    ((CpuField.upTo (min a.cpu.registers.length b.cpu.registers.length)).filter fun f =>
      decide (a.cpu.value f ≠ b.cpu.value f)).map fun f => ⟨f, a.cpu.value f, b.cpu.value f⟩
  cpu_names : (d.cpu.map fun c => c.field.name).Nodup
  timers : d.timers =
    (TimerField.all.filter fun f => decide (a.timers.value f ≠ b.timers.value f)).map fun f =>
      ⟨f, a.timers.value f, b.timers.value f⟩
  timer_names : (d.timers.map fun c => c.field.name).Nodup
  program : d.program = true ↔ a.program ≠ b.program
  display : d.display = true ↔ a.display ≠ b.display
  key : d.key = true ↔ a.key ≠ b.key

/-- The difference the other way round. -/
def swap (d : Diff) : Diff :=
  { d with cpu := d.cpu.map Change.swap, timers := d.timers.map Change.swap }

/-- Whether each field and each part that a difference reports is reported by one of two others. -/
structure Within (d first second : Diff) : Prop where
  cpu : ∀ x ∈ d.cpu, ∃ y ∈ first.cpu ++ second.cpu, y.field = x.field
  timers : ∀ x ∈ d.timers, ∃ y ∈ first.timers ++ second.timers, y.field = x.field
  program : d.program = true → first.program = true ∨ second.program = true
  display : d.display = true → first.display = true ∨ second.display = true
  key : d.key = true → first.key = true ∨ second.key = true

variable {a b c : Snapshot}

theorem tells_between (a b : Snapshot) : (between a b).Tells a b where
  cpu := (ofCpu_eq_changes a.cpu b.cpu).trans (changes_eq_map _ _ _)
  cpu_names := by
    rw [between, ofCpu_eq_changes]
    exact nodup_names CpuField.name_injective (CpuField.nodup_upTo _) _ _
  timers := (ofTimers_eq_changes a.timers b.timers).trans (changes_eq_map _ _ _)
  timer_names := by
    rw [between, ofTimers_eq_changes]
    exact nodup_names TimerField.name_injective (by decide) _ _
  program := decide_eq_true_iff
  display := decide_eq_true_iff
  key := decide_eq_true_iff

theorem between_swap (a b : Snapshot) : between b a = (between a b).swap := by
  simp only [between, swap, Diff.mk.injEq, ofCpu_eq_changes, ofTimers_eq_changes, ne_comm, and_true]
  rw [Nat.min_comm]
  exact ⟨changes_swap _ _ _, changes_swap _ _ _⟩

theorem between_isEmpty_iff (hcount : a.cpu.registers.length = b.cpu.registers.length) :
    (between a b).isEmpty = true ↔ a = b := by
  have hcpu : ofCpu a.cpu b.cpu = [] ↔ a.cpu = b.cpu := by
    rw [ofCpu_eq_changes_of_count hcount, changes_eq_nil_iff]
    exact ⟨CpuSnapshot.ext_value hcount, fun h f _ => by rw [h]⟩
  have htimers : ofTimers a.timers b.timers = [] ↔ a.timers = b.timers := by
    rw [ofTimers_eq_changes, changes_eq_nil_iff]
    exact ⟨TimerSnapshot.ext_value, fun h f _ => by rw [h]⟩
  obtain ⟨cpu, timers, program, display, key⟩ := a
  obtain ⟨cpu', timers', program', display', key'⟩ := b
  simp only [isEmpty, between, Bool.and_eq_true, List.isEmpty_iff, hcpu, htimers, ne_eq,
    decide_not, Bool.not_not, decide_eq_true_eq, and_assoc, Snapshot.mk.injEq]

theorem between_within (hab : a.cpu.registers.length = b.cpu.registers.length)
    (hbc : b.cpu.registers.length = c.cpu.registers.length) :
    (between a c).Within (between a b) (between b c) := by
  have hac := ofCpu_eq_changes_of_count (hab.trans hbc)
  have hab' := ofCpu_eq_changes_of_count hab
  have hbc' := ofCpu_eq_changes_of_count hbc
  rw [← hab] at hbc'
  simp only [between, hac, hab', hbc', ofTimers_eq_changes]
  constructor
  · exact fun x hx => changes_trans b.cpu.value hx
  · exact fun x hx => changes_trans b.timers.value hx
  all_goals
    simp only [decide_eq_true_eq]
    exact fun h => (h.ne_or_ne _).imp_right Ne.symm

/-- The difference of two snapshots tells exactly how they differ, and the other way round it is the
same with both sides exchanged. With as many registers in both it is empty only between equal
snapshots, and setting what it lists leads from the first to the second; over a third snapshot
nothing comes in that neither half of the way reports. The fields have fixed names in a fixed order,
registers by their numerals. There is no difference to a snapshot that has none before it. -/
theorem differences_tell_lead_and_chain :
    (∀ a b : Snapshot, (between a b).Tells a b ∧ between b a = (between a b).swap) ∧
    (∀ a b : Snapshot, a.cpu.registers.length = b.cpu.registers.length →
      ((between a b).isEmpty = true ↔ a = b) ∧
      a.cpu.patch (between a b).cpu = b.cpu ∧
      a.timers.patch (between a b).timers = b.timers) ∧
    (∀ a b c : Snapshot, a.cpu.registers.length = b.cpu.registers.length →
      b.cpu.registers.length = c.cpu.registers.length →
      (between a c).Within (between a b) (between b c)) ∧
    (∀ n, (CpuField.upTo n).map CpuField.name =
      (List.range n).map (fun i => (CpuField.register i).name) ++
        ["index", "pc", "sp", "stack", "instruction_count"]) ∧
    (∀ i, ∃ ds, (CpuField.register i).name = "v" ++ String.ofList (ds.map Digits.lower) ∧
      (∀ d ∈ ds, d < 16) ∧ (ds.head? = some 0 → ds = [0]) ∧ Digits.ofBase 16 ds = i) ∧
    TimerField.all.map TimerField.name = ["delay", "sound"] ∧
    ∀ a b : Snapshot, since (some a) b = between a b ∧ (since none b).isEmpty = true := by
  refine ⟨fun a b => ⟨tells_between a b, between_swap a b⟩, fun a b hcount => ?_,
    fun a b c => between_within, fun n => ?_, CpuField.exists_name_register, rfl,
    fun a b => ⟨rfl, rfl⟩⟩
  · exact ⟨between_isEmpty_iff hcount, patch_ofCpu hcount, patch_ofTimers a.timers b.timers⟩
  · rw [CpuField.upTo, List.map_append, List.map_map]
    rfl

/-- A snapshot of two registers, with a return address on the stack. -/
def calling : Snapshot where
  cpu := {
    registers := [1, 2], index := 0x300, pc := 0x204, depth := 1, stack := [0x202], completed := 2 }
  timers := { delay := 3, sound := 0 }
  program := #[0x22, 0x04]
  display := #[0, 1]
  key := none

/-- The same machine after it has returned and been given a key. -/
def cameBack : Snapshot :=
  { calling with
    cpu := { calling.cpu with registers := [1, 7], pc := 0x202, depth := 0, stack := [] }
    timers := { delay := 2, sound := 0 }
    key := some 5 }

theorem call_and_return_differ :
    ¬(between calling cameBack).isEmpty = true ∧
    calling.cpu.patch [⟨.register 1, .number 2, .number 7⟩, ⟨.pc, .number 0x204, .number 0x202⟩,
      ⟨.depth, .number 1, .number 0⟩, ⟨.stack, .addresses [0x202], .addresses []⟩] = cameBack.cpu ∧
    (between calling calling).Within (between calling cameBack) (between cameBack calling) := by
  obtain ⟨-, hlead, hchain, -⟩ := differences_tell_lead_and_chain
  obtain ⟨hempty, hcpu, -⟩ := hlead calling cameBack rfl
  refine ⟨fun h => ?_, ?_, hchain calling cameBack calling rfl rfl⟩
  · have hne : calling ≠ cameBack := by decide
    exact hne (hempty.1 h)
  · have hlist : (between calling cameBack).cpu =
        [⟨.register 1, .number 2, .number 7⟩, ⟨.pc, .number 0x204, .number 0x202⟩,
          ⟨.depth, .number 1, .number 0⟩, ⟨.stack, .addresses [0x202], .addresses []⟩] := by
      decide
    exact hlist ▸ hcpu

end Diff

end ChipVm
