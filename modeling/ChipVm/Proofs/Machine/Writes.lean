/-
Where a history writes to memory. Each moment writes to the addresses of its instruction or of the
change that a host makes, if it goes through; any other address keeps what it holds.
-/
import ChipVm.Proofs.Machine.History

namespace ChipVm

namespace Memory

/-- The addresses that a change writes to. -/
def Edit.cells : Edit → List Nat
  | .write a _ => [a.toNat]
  | .writeBlock a data => List.range' a.toNat data.length
  | .load image => List.range' programStart image.length
  | .clear => List.range' 0 glyphEnd ++ List.range' programStart (size - programStart)

theorem byte_edit {m k : Memory} {e : Edit} (h : m.edit e = .ok k) {a : Nat} (ha : a ∉ e.cells) :
    k.byte a = m.byte a := by
  cases e with
  | write b v =>
    have hb : m.writeBlock b [lowByte v] = .ok k := (write_eq_writeBlock m b v).symm.trans h
    obtain ⟨start, fits, rfl, -, rfl⟩ := writeBlock_ok hb
    exact byte_overlay_of_notMem ha
  | writeBlock b data =>
    obtain ⟨start, fits, rfl, -, rfl⟩ := writeBlock_ok h
    exact byte_overlay_of_notMem ha
  | load image =>
    rw [edit, load] at h
    split at h
    · cases h
    · cases h
      exact byte_overlay_of_notMem ha
  | clear =>
    obtain rfl := Except.ok.inj h
    rw [Edit.cells, List.mem_append, not_or] at ha
    rw [clear, byte_overlay_of_notMem, byte_overlay_of_notMem]
    · rw [Array.size_replicate]
      exact ha.2
    · exact ha.1

end Memory

/-- The change of memory that a host asks for, if it asks for one. -/
def Command.memoryEdit? : Command → Option Memory.Edit
  | .load source => source.read.toOption.map .load
  | .memory edit => some edit
  | .reset => some .clear
  | _ => none

/-- The addresses that a moment writes to: none if it is refused. -/
def Moment.cells (random : RandomBytes) (x : Moment) : List Nat :=
  match x.command.memoryEdit? with
  | some edit =>
    match x.machine.memory.edit edit with
    | .ok _ => edit.cells
    | .error _ => []
  | none => ((x.executed? random).map (·.cells x.machine.index)).getD []

namespace Machine

variable {random : RandomBytes} {m : Machine} {c : Command} {a : Nat}

theorem memory_perform (hc : c.Single) (hstep : ∀ now, c ≠ .step now) :
    (m.perform random c).2.memory =
      c.memoryEdit?.elim m.memory fun edit => (m.memory.edit edit).toOption.getD m.memory := by
  cases c with
  | step now => exact absurd rfl (hstep now)
  | run clock cycles => cases hc
  | reset => rfl
  | timers edit => rfl
  | memory edit =>
    simp only [perform, Command.memoryEdit?, Option.elim_some]
    cases m.memory.edit edit <;> rfl
  | load source =>
    simp only [perform, Command.memoryEdit?]
    cases source.read with
    | error e => rfl
    | ok image =>
      simp only [load, Except.toOption, Option.map_some, Option.elim_some, Memory.edit]
      cases m.memory.load image <;> rfl
  | _ =>
    rw [perform]
    split <;> rfl

theorem byte_step (now : Int) (ha : a ∉ Moment.cells random ⟨m, .step now⟩) :
    (m.step random now).2.memory.byte a = m.memory.byte a := by
  obtain ⟨e, hs⟩ | ⟨i, status, after, hf, hs, hframe⟩ := step_cases random m now
  · rw [hs]
    rfl
  · have hcells : a ∉ i.cells m.index := by
      simpa only [Moment.cells, Command.memoryEdit?, Moment.executed?_step_ok hf hs,
        Option.map_some, Option.getD_some] using ha
    rw [hs]
    exact hframe.memory a hcells

theorem byte_perform (hc : c.Single) (ha : a ∉ Moment.cells random ⟨m, c⟩) :
    (m.perform random c).2.memory.byte a = m.memory.byte a := by
  by_cases hstep : ∃ now, c = .step now
  · obtain ⟨now, rfl⟩ := hstep
    rw [perform_step_snd]
    exact byte_step now ha
  · rw [memory_perform hc fun now h => hstep ⟨now, h⟩]
    rw [Moment.cells] at ha
    cases hedit : c.memoryEdit? with
    | none => rfl
    | some edit =>
      rw [hedit] at ha
      rw [Option.elim_some]
      cases hok : m.memory.edit edit with
      | error f => rfl
      | ok memory =>
        simp only [hok] at ha
        exact Memory.byte_edit hok ha

/-- A history leaves alone what none of its moments writes to. -/
theorem byte_performAll (cs : List Command)
    (ha : ∀ x ∈ m.moments random cs, a ∉ x.cells random) :
    (m.performAll random cs).memory.byte a = m.memory.byte a := by
  refine moments_induction (motive := fun past k =>
    (∀ x ∈ past, a ∉ x.cells random) → k.memory.byte a = m.memory.byte a)
    (fun past k c hc hk hpast => ?_) (fun _ => rfl) cs ha
  have hbefore := hk fun x hx => hpast x (List.mem_append_left _ hx)
  have hcell := hpast _ (List.mem_append_right _ List.mem_cons_self)
  rw [byte_perform hc hcell, hbefore]

theorem byte_boot {choice : Option Config.Choice} {program : Option ProgramSource}
    (h : boot choice program = .ok m) (ha : a < Memory.programStart) :
    m.memory.byte a = Memory.initial.byte a := by
  obtain ⟨⟨memory, hmemory, hm⟩, -⟩ := boot_ok h
  rw [hm]
  rcases hmemory with rfl | ⟨image, hload⟩
  · rfl
  · refine Memory.byte_edit (e := .load image) hload ?_
    rw [Memory.Edit.cells, List.mem_range'_1]
    omega

end Machine

end ChipVm
