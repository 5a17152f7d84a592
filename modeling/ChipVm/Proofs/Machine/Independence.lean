/-
What instructions do not depend on. Few of them look at the configuration, the timers, the stack,
the pending key or the place in the random bytes; so a change of these parts, each by itself, may
come before an instruction that does not look at them or after it, and the same goes for most
changes that a host makes.
-/
import ChipVm.Proofs.Machine.Footprint

namespace ChipVm

namespace Instruction

/-- Whether an instruction looks at the timers or assigns them. -/
def UsesTimers : Instruction → Prop
  | .readDelay _ | .setDelay _ | .setSound _ => True
  | _ => False

/-- Whether an instruction that goes through does not do the same under two configurations: a shift
of registers that differ, if the operand is chosen differently, or a transfer of a block, if the
move of the index is. -/
def TellsApart (registers : Registers) (c d : Config) : Instruction → Prop
  | .alu .shiftRight x y | .alu .shiftLeft x y =>
    c.shift ≠ d.shift ∧ registers.get x ≠ registers.get y
  | .store _ | .fill _ => c.block ≠ d.block
  | _ => False

theorem not_tellsApart {i : Instruction} {registers : Registers} {c d : Config}
    (hshift : c.shift = d.shift) (hblock : c.block = d.block) : ¬i.TellsApart registers c d := by
  unfold TellsApart
  split
  · exact fun h => h.1 hshift
  · exact fun h => h.1 hshift
  · exact fun h => h hblock
  · exact fun h => h hblock
  · exact id

end Instruction

namespace Machine

/-- A change of the parts of a machine that few instructions look at, each by itself. -/
structure Change where
  config : Config → Config := id
  timers : Timers → Timers := id
  stack : Stack → Stack := id
  key : Option Key → Option Key := id
  drawn : Nat → Nat := id

def changed (m : Machine) (f : Change) : Machine :=
  { m with
    config := f.config m.config
    timers := f.timers m.timers
    stack := f.stack m.stack
    key := f.key m.key
    drawn := f.drawn m.drawn }

variable {m : Machine} {f : Change} {i : Instruction} {random random' : RandomBytes}

/-! ## Instructions -/

theorem alu_of_not_tellsApart {r : Registers} {c d : Config} {op : AluOp} {x y : Fin 16}
    (h : ¬(Instruction.alu op x y).TellsApart r c d) :
    r.alu d.shift op x y = r.alu c.shift op x y := by
  by_cases hshift : c.shift = d.shift
  · rw [hshift]
  · cases op with
    | shiftRight | shiftLeft =>
      have hget : r.get x = r.get y := Classical.byContradiction fun hne => h ⟨hshift, hne⟩
      unfold Registers.alu
      cases c.shift <;> cases d.shift <;> simp only [hget]
    | _ => rfl

theorem indexAfterBlock_changed (x : Fin 16) (h : m.config.block = (f.config m.config).block) :
    (m.changed f).indexAfterBlock x = m.indexAfterBlock x := by
  have hblock : (m.changed f).config.block = m.config.block := h.symm
  unfold indexAfterBlock
  rw [hblock]
  rfl

theorem ret_changed (hstack : f.stack = id) :
    (m.changed f).ret = (m.ret.1, m.ret.2.changed f) := by
  simp only [ret, changed, hstack, id]
  cases m.stack.pop? <;> rfl

theorem call_changed (hstack : f.stack = id) (target : Nat) :
    (m.changed f).call target = ((m.call target).1, (m.call target).2.changed f) := by
  simp only [call, changed, hstack, id]
  cases m.stack.push? (m.pc + 2) <;> rfl

theorem drawSprite_changed (x y rows : Fin 16) :
    (m.changed f).drawSprite x y rows =
      ((m.drawSprite x y rows).1, (m.drawSprite x y rows).2.changed f) := by
  simp only [drawSprite, changed]
  cases m.memory.readBlock m.index rows.val with
  | error e => rfl
  | ok sprite =>
    simp only
    rcases m.screen.draw _ _ _ with ⟨_ | hit, screen⟩ <;> rfl

theorem awaitKey_changed (hkey : f.key = id) (x : Fin 16) :
    (m.changed f).awaitKey x = ((m.awaitKey x).1, (m.awaitKey x).2.changed f) := by
  cases hm : m.key with
  | none => simp only [awaitKey, changed, hkey, id, hm]
  | some key => simp only [awaitKey, changed, hkey, id, hm]

theorem storeDecimal_changed (x : Fin 16) :
    (m.changed f).storeDecimal x = ((m.storeDecimal x).1, (m.storeDecimal x).2.changed f) := by
  simp only [storeDecimal, changed]
  cases m.memory.writeBlock m.index _ <;> rfl

theorem storeRegisters_changed {x : Fin 16}
    (hblock : ∀ flow after, m.storeRegisters x = (.ok flow, after) →
      m.config.block = (f.config m.config).block) :
    (m.changed f).storeRegisters x =
      ((m.storeRegisters x).1, (m.storeRegisters x).2.changed f) := by
  have hwrite : (m.changed f).memory.writeBlock (m.changed f).index
      ((m.changed f).registers.upTo x) = m.memory.writeBlock m.index (m.registers.upTo x) := rfl
  cases hw : m.memory.writeBlock m.index (m.registers.upTo x) with
  | error e => simp only [storeRegisters, hwrite, hw]
  | ok memory =>
    have hx : m.storeRegisters x =
        (.ok .next, { m with memory := memory, index := m.indexAfterBlock x }) := by
      simp only [storeRegisters, hw]
    rw [hx]
    simp only [storeRegisters, hwrite, hw, indexAfterBlock_changed x (hblock _ _ hx)]
    rfl

theorem fillRegisters_changed {x : Fin 16}
    (hblock : ∀ flow after, m.fillRegisters x = (.ok flow, after) →
      m.config.block = (f.config m.config).block) :
    (m.changed f).fillRegisters x = ((m.fillRegisters x).1, (m.fillRegisters x).2.changed f) := by
  have hread : (m.changed f).memory.readBlock (m.changed f).index (x.val + 1) =
      m.memory.readBlock m.index (x.val + 1) := rfl
  cases hr : m.memory.readBlock m.index (x.val + 1) with
  | error e => simp only [fillRegisters, hread, hr]
  | ok values =>
    have hx := fillRegisters_of_readBlock hr
    rw [hx, fillRegisters_of_readBlock (m := m.changed f) hr,
      indexAfterBlock_changed x (hblock _ _ hx)]
    rfl

/-- An instruction does the same before and after a change of parts that it does not look at. A
change of the configuration may also come before an instruction that fails or does not tell the two
apart. -/
theorem execute_changed
    (hconfig : ∀ flow after, m.execute random i = (.ok flow, after) →
      ¬i.TellsApart m.registers m.config (f.config m.config))
    (htimers : i.UsesTimers → f.timers = id)
    (hstack : (i = .ret ∨ ∃ target, i = .call target) → f.stack = id)
    (hkey : i.TakesKey → f.key = id)
    (hdrawn : (∃ x mask, i = .random x mask) → f.drawn = id ∧ random' = random) :
    (m.changed f).execute random' i =
      ((m.execute random i).1, (m.execute random i).2.changed f) := by
  cases i with
  | ret => exact ret_changed (hstack (.inl rfl))
  | call target => exact call_changed (hstack (.inr ⟨target, rfl⟩)) target
  | alu op x y =>
    have halu := alu_of_not_tellsApart (hconfig _ _ rfl)
    simp only [execute, changed, halu]
  | random x mask =>
    obtain ⟨hsame, rfl⟩ := hdrawn ⟨x, mask, rfl⟩
    simp only [execute, changed, hsame, id]
  | draw x y rows => exact drawSprite_changed x y rows
  | skipIfKey x | skipUnlessKey x =>
    have hsame := hkey trivial
    simp only [execute, keyMatches, changed, hsame, id]
  | readDelay x | setDelay x | setSound x =>
    have hsame := htimers trivial
    simp only [execute, changed, hsame, id]
  | awaitKey x => exact awaitKey_changed (hkey trivial) x
  | decimal x => exact storeDecimal_changed x
  | store x => exact storeRegisters_changed fun _ _ h => Decidable.not_not.1 (hconfig _ _ h)
  | fill x => exact fillRegisters_changed fun _ _ h => Decidable.not_not.1 (hconfig _ _ h)
  | _ => rfl

/-! ## Edits -/

/-- An edit does the same before and after a change of parts that it does not replace. -/
theorem perform_changed (random random' : RandomBytes) {c : Command} (hc : c.Edits)
    (htimers : (∃ edit, c = .timers edit) → f.timers = id)
    (hkey : (∃ value, c = .setKey value) → f.key = id) :
    (m.changed f).perform random' c =
      ((m.perform random c).1, (m.perform random c).2.changed f) := by
  cases c with
  | step now => cases hc
  | run clock cycles => cases hc
  | reset => cases hc
  | setKey value =>
    have hsame := hkey ⟨value, rfl⟩
    simp only [perform, setKey, changed]
    cases Key.ofJson value <;> simp [hsame]
  | timers edit =>
    have hsame := htimers ⟨edit, rfl⟩
    simp only [perform, changed, hsame, id]
  | load source =>
    simp only [perform, load, changed]
    cases source.read with
    | error e => rfl
    | ok image =>
      simp only
      cases m.memory.load image <;> rfl
  | read query =>
    simp only [perform, changed]
    cases m.memory.ask query <;> rfl
  | memory edit =>
    simp only [perform, changed]
    cases m.memory.edit edit <;> rfl
  | registers edit =>
    simp only [perform, changed]
    rcases m.registers.edit edit with ⟨_ | _, registers⟩ <;> rfl
  | screen edit =>
    simp only [perform, changed]
    rcases m.screen.edit edit with ⟨_ | hit, screen⟩ <;> rfl

end Machine

end ChipVm
