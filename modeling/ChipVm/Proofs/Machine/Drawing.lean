/-
The drawing instruction from memory to the screen. Its rows come from memory and its place from two
registers, as they are before the flag is written; as there are at most fifteen rows no pixel is
covered twice, so that each covered pixel is toggled and the flag tells whether one went out. And as
nothing writes to the glyphs, the rows of a digit are those of the glyph table in every history.
-/
import ChipVm.Proofs.Machine.Blocks
import ChipVm.Proofs.Screen.Coverage

namespace ChipVm

namespace Screen

/-! ## Sprites of bytes -/

/-- Whether the bit at a row and a place of a sprite drawn at a column and a row is set and falls on
a pixel, around both edges. -/
def FallsOn (x y : Nat) (sprite : List UInt8) (c : Fin 64) (r : Fin 32)
    (p : Fin sprite.length × Fin 8) : Prop :=
  (sprite.get p.1).toNat.testBit (7 - p.2.val) = true ∧ (x % 64 + p.2.val) % 64 = c.val ∧
    (y % 32 + p.1.val) % 32 = r.val

/-- What a sprite toggles: a pixel on which a bit falls, which is then the only one that does. -/
structure Toggled (x y : Nat) (sprite : List UInt8) (before after : Screen) : Prop where
  covered : ∀ c r, (∃ p, FallsOn x y sprite c r p) →
    (∃! p, FallsOn x y sprite c r p) ∧ after.get c r = !before.get c r
  others : ∀ c r, (¬∃ p, FallsOn x y sprite c r p) → after.get c r = before.get c r

variable {x y : Nat} {sprite : List UInt8} {c : Fin 64} {r : Fin 32}

/-- No two bits of a sprite that is not taller than the screen fall on one pixel. -/
theorem FallsOn.unique (hl : sprite.length ≤ 32) {p q : Fin sprite.length × Fin 8}
    (hp : FallsOn x y sprite c r p) (hq : FallsOn x y sprite c r q) : p = q := by
  obtain ⟨k, j⟩ := p
  obtain ⟨l, i⟩ := q
  obtain ⟨-, hj, hk⟩ := hp
  obtain ⟨-, hi, hl'⟩ := hq
  have hkl := k.isLt
  have hll := l.isLt
  have hrow : k = l := Fin.ext (by simp only at hk hl'; omega)
  have hplace : j = i := Fin.ext (by simp only at hj hi; omega)
  rw [hrow, hplace]

theorem coverage_bytes (hl : sprite.length ≤ 32) :
    coverage x y (sprite.map fun b => (b.toNat : Int)) c r ≤ 1 ∧
      (1 ≤ coverage x y (sprite.map fun b => (b.toNat : Int)) c r ↔
        ∃ p, FallsOn x y sprite c r p) := by
  have hlength : (sprite.map fun b => (b.toNat : Int)).length = sprite.length := List.length_map _
  have hfalls (p : Fin (sprite.map fun b => (b.toNat : Int)).length × Fin 8) :
      (((sprite.map fun b => (b.toNat : Int)).get p.1 % 256).toNat.testBit (7 - p.2.val) = true ∧
        ((x : Int) + p.2.val) % 64 = c.val ∧ ((y : Int) + p.1.val) % 32 = r.val) ↔
      FallsOn x y sprite c r (p.1.cast hlength, p.2) := by
    have hb := (sprite.get (p.1.cast hlength)).toNat_lt
    have hbits : (((sprite.map fun b => (b.toNat : Int)).get p.1) % 256).toNat =
        (sprite.get (p.1.cast hlength)).toNat := by
      rw [List.get_eq_getElem, List.getElem_map]
      change ((sprite.get (p.1.cast hlength)).toNat % 256 : Int).toNat = _
      omega
    simp only [hbits, FallsOn, Fin.val_cast]
    exact and_congr_right fun _ => and_congr (by omega) (by omega)
  rw [coverage]
  constructor
  · refine Finset.card_le_one.2 fun p hp q hq => ?_
    have heq := ((hfalls p).1 (Finset.mem_filter.1 hp).2).unique hl
      ((hfalls q).1 (Finset.mem_filter.1 hq).2)
    obtain ⟨hrow, hplace⟩ := Prod.mk.inj heq
    exact Prod.ext (Fin.cast_injective hlength hrow) hplace
  · rw [Finset.one_le_card, Finset.filter_nonempty_iff]
    constructor
    · rintro ⟨p, -, hp⟩
      exact ⟨_, (hfalls p).1 hp⟩
    · rintro ⟨p, hp⟩
      exact ⟨(p.1.cast hlength.symm, p.2), Finset.mem_univ _, (hfalls _).2 hp⟩

/-- Drawing a sprite of bytes that is not taller than the screen toggles the pixels on which its
bits fall, and tells whether one of them went out. -/
theorem draw_bytes (s : Screen) (hx : x < 256) (y : Nat) (hl : sprite.length ≤ 32) :
    ∃ hit drawn, s.draw x y (sprite.map fun b => (b.toNat : Int)) = (.ok hit, drawn) ∧
      Toggled x y sprite s drawn ∧
      (hit = true ↔ ∃ c r, s.get c r = true ∧ drawn.get c r = false) := by
  obtain ⟨hit, drawn, hdraw, hget, hhit⟩ := draw_inRange (x := x)
    (inRange_eq_true_iff.2 ⟨by omega, by omega⟩) s y (sprite.map fun b => (b.toNat : Int))
  have hcover (c : Fin 64) (r : Fin 32) := coverage_bytes (x := x) (y := y) (c := c) (r := r) hl
  refine ⟨hit, drawn, hdraw, ⟨fun c r hp => ?_, fun c r hp => ?_⟩, ?_⟩
  · obtain ⟨hle, hiff⟩ := hcover c r
    have hone : coverage x y (sprite.map fun b => (b.toNat : Int)) c r = 1 :=
      Nat.le_antisymm hle (hiff.2 hp)
    obtain ⟨p, hp⟩ := hp
    refine ⟨⟨p, hp, fun q hq => hq.unique hl hp⟩, ?_⟩
    rw [hget, hone]
    exact Bool.xor_true _
  · obtain ⟨-, hiff⟩ := hcover c r
    rw [hget, Nat.lt_one_iff.1 (Nat.lt_of_not_le fun h => hp (hiff.1 h))]
    exact Bool.xor_false _
  · rw [hhit]
    refine exists_congr fun c => exists_congr fun r => ?_
    obtain ⟨hle, -⟩ := hcover c r
    rw [hget]
    rcases Nat.le_one_iff_eq_zero_or_eq_one.1 hle with h | h <;> simp [h]

end Screen

/-! ## The instruction -/

namespace Memory

/-- The rows of the glyph of a digit. -/
def glyph (d : Nat) : List UInt8 := (glyphTable.toList.drop (glyphSize * d)).take glyphSize

theorem HasGlyphs.bytesFrom {m : Memory} (hm : m.HasGlyphs) {d : Nat} (hd : d ≤ 15) :
    m.bytesFrom (glyphSize * d) glyphSize = glyph d := by
  refine List.ext_getElem ?_ fun k hk _ => ?_
  · rw [length_bytesFrom]
    simp [glyph, glyphSize]
    omega
  · have hk5 : k < 5 := by rwa [length_bytesFrom] at hk
    simp only [Memory.bytesFrom, glyph, List.getElem_map, List.getElem_range, List.getElem_take,
      List.getElem_drop]
    exact hm _ (by unfold glyphSize; omega)

end Memory

namespace Machine

/-- What a drawing instruction does with a sprite and the coordinates in two registers. -/
structure DrawsSprite (x y : Fin 16) (sprite : List UInt8) (m after : Machine) : Prop where
  screen : m.screen.Toggled (m.registers.get x).toNat (m.registers.get y).toNat sprite after.screen
  flag_hit : (∃ c r, m.screen.get c r = true ∧ after.screen.get c r = false) →
    after.registers.get 0xF = 1
  flag_clear : (¬∃ c r, m.screen.get c r = true ∧ after.screen.get c r = false) →
    after.registers.get 0xF = 0
  registers : ∀ z ≠ 0xF, after.registers.get z = m.registers.get z
  memory : after.memory = m.memory
  index : after.index = m.index

variable {random : RandomBytes} {m : Machine}

/-- A drawing instruction whose rows lie in memory goes through and draws them. -/
theorem step_draw {x y rows : Fin 16} (hf : m.fetch = .ok (.draw x y rows))
    (hrows : m.index + rows.val ≤ 4096) (random : RandomBytes) (now : Int) :
    ∃ after, m.step random now = (.ok .advanced, after) ∧
      DrawsSprite x y (m.memory.bytesFrom m.index rows.val) m after := by
  have hread := Memory.readBlock_eq_bytesFrom (m := m.memory) hrows
  have hlength : (m.memory.bytesFrom m.index rows.val).length ≤ 32 := by
    rw [Memory.length_bytesFrom]
    omega
  obtain ⟨hit, screen, hdraw, hx⟩ := drawSprite_of_readBlock (m := m.tick now) x y hread
  obtain ⟨hit', screen', hdraw', htoggled, hhit⟩ := m.screen.draw_bytes
    (m.registers.get x).toNat_lt (m.registers.get y).toNat hlength
  obtain ⟨rfl, rfl⟩ : hit = hit' ∧ screen = screen' := by
    simpa using hdraw.symm.trans hdraw'
  have hflag (z : Fin 16) : (m.registers.setFlag (flagByte hit)).get z =
      if z = 0xF then flagByte hit else m.registers.get z := m.registers.get_setFlag _ z
  refine ⟨_, step_of_execute hf hx, htoggled, fun hout => ?_, fun hnone => ?_, fun z hz => ?_, rfl,
    rfl⟩
  · exact (hflag 0xF).trans (by rw [hhit.2 hout]; rfl)
  · exact (hflag 0xF).trans (by rw [Bool.eq_false_iff.2 fun h => hnone (hhit.1 h)]; rfl)
  · exact (hflag z).trans (if_neg hz)

/-- Executing the instruction of a digit moves the index to the glyph of it. -/
theorem step_glyph {x : Fin 16} (hf : m.fetch = .ok (.glyph x)) (random : RandomBytes) (now : Int) :
    ∃ after, m.step random now = (.ok .advanced, after) ∧
      after.index = Memory.glyphSize * (m.registers.get x).toNat :=
  ⟨_, step_of_execute hf rfl, Nat.mul_comm _ _⟩

/-- A drawing instruction with its rows inside memory goes through. It toggles each pixel on which a
bit of these rows falls, drawn at the column and the row in the two registers as they are before the
step, tells in the flag register whether a lit pixel went out, and changes no other register, the
index or memory. On a machine that a host has come to, so does one of five rows that is executed
after the index has been moved to a digit, whatever happens in between as long as the index stays
there: its rows are those of the glyph table. -/
theorem draws_rows_and_glyphs (random : RandomBytes) (hp : m.pc ≤ 4094) :
    (m.word.family = 0xD → m.index + m.word.n ≤ 4096 → ∀ now, ∃ after,
      m.step random now = (.ok .advanced, after) ∧
      DrawsSprite m.word.x m.word.y (m.memory.bytesFrom m.index m.word.n) m after) ∧
    (Reachable random m → m.word.family = 0xF ∧ m.word.low = 0x29 →
      (m.registers.get m.word.x).toNat ≤ 15 → ∀ now, ∃ pointing,
        m.step random now = (.ok .advanced, pointing) ∧
        ∀ cs, let inner := pointing.performAll random cs
          inner.index = pointing.index → inner.pc ≤ 4094 → inner.word.family = 0xD →
          inner.word.n = 5 → ∀ last, ∃ after,
            inner.step random last = (.ok .advanced, after) ∧
            DrawsSprite inner.word.x inner.word.y
              (Memory.glyph (m.registers.get m.word.x).toNat) inner after) := by
  constructor
  · intro hw hrows now
    exact step_draw (fetch_eq_ok_iff.2 ⟨hp, hw, rfl, rfl, rfl⟩) hrows random now
  · intro hreach hw hd now
    obtain ⟨pointing, hs, hindex⟩ :=
      step_glyph (fetch_eq_ok_iff.2 ⟨hp, hw.1, hw.2, rfl⟩) random now
    refine ⟨pointing, hs, ?_⟩
    intro cs inner hkept hp' hw' hn last
    have hglyphs : inner.memory.HasGlyphs := ((hreach.step hs).performAll cs).bounded.glyphs
    have hrows := hglyphs.bytesFrom hd
    rw [← hindex, ← hkept] at hrows
    rw [← hrows]
    have hf : inner.fetch = .ok (.draw inner.word.x inner.word.y 5) :=
      fetch_eq_ok_iff.2 ⟨hp', hw', rfl, rfl, hn⟩
    refine step_draw hf ?_ random last
    rw [hkept, hindex, Memory.glyphSize]
    omega

/-- A machine about to show the digit in `V0` at the place in `V1` and `V2`. -/
def showingDigit : Machine :=
  { new {} with
    memory := Memory.initial.overlay 0x200 #[0xF0, 0x29, 0xD1, 0x25] (by decide)
    registers := Registers.zero.set 0 0xA }

theorem reachable_showingDigit (random : RandomBytes) : Reachable random showingDigit := by
  have hb : boot none (some (.image [0xF0, 0x29, 0xD1, 0x25])) = .ok
      { new {} with
        memory := Memory.initial.overlay 0x200 #[0xF0, 0x29, 0xD1, 0x25] (by decide) } := rfl
  have hr : Registers.zero.write 0 0xA = .ok (Registers.zero.set 0 0xA) :=
    Registers.write_of_lt _ (by decide) 0xA
  have h : Reachable random _ := (Reachable.boot hb).perform (.registers (.set 0 0xA))
  simp only [perform, Registers.edit, new, hr] at h
  exact h

theorem digit_drawn_after_key :
    ∃ pointing after, showingDigit.step (fun _ => 0) 0 = (.ok .advanced, pointing) ∧
      (pointing.performAll (fun _ => 0) [.setKey (.int 5)]).step (fun _ => 0) 0 =
        (.ok .advanced, after) ∧
      DrawsSprite 1 2 [0xF0, 0x90, 0xF0, 0x90, 0x90]
        (pointing.performAll (fun _ => 0) [.setKey (.int 5)]) after ∧
      DrawsSprite 1 2
        ((pointing.performAll (fun _ => 0) [.setKey (.int 5)]).memory.bytesFrom 50 5)
        (pointing.performAll (fun _ => 0) [.setKey (.int 5)]) after := by
  have hmemory : ∃ fits, showingDigit.memory =
      Memory.initial.overlay 0x200 #[0xF0, 0x29, 0xD1, 0x25] fits := ⟨by decide, rfl⟩
  have hf : showingDigit.fetch = .ok (.glyph 0) :=
    fetch_of_overlay (p := 0x200) hmemory rfl (by decide) rfl rfl ⟨rfl, rfl, rfl⟩
  obtain ⟨hp, hfamily, hlow, hx⟩ := fetch_eq_ok_iff.1 hf
  have hdigit : (showingDigit.registers.get showingDigit.word.x).toNat = 10 := by rw [hx]; rfl
  obtain ⟨pointing, hs, hdraws⟩ :=
    (draws_rows_and_glyphs (fun _ => 0) hp).2 (reachable_showingDigit _) ⟨hfamily, hlow⟩
      (by rw [hdigit]; decide) 0
  have hpointing : pointing = _ := congrArg Prod.snd (hs.symm.trans (step_of_execute hf rfl))
  -- The key changes neither the index nor the word to come.
  have hkept : ∃ fits, (pointing.performAll (fun _ => 0) [.setKey (.int 5)]).memory =
      Memory.initial.overlay 0x200 #[0xF0, 0x29, 0xD1, 0x25] fits :=
    ⟨by decide, by rw [hpointing]; rfl⟩
  have hinner : (pointing.performAll (fun _ => 0) [.setKey (.int 5)]).fetch = .ok (.draw 1 2 5) :=
    fetch_of_overlay (p := 0x202) hkept (by rw [hpointing]; rfl) (by decide) rfl rfl
      ⟨rfl, rfl, rfl, rfl⟩
  obtain ⟨hp', hfamily', hx', hy', hn'⟩ := fetch_eq_ok_iff.1 hinner
  obtain ⟨after, hafter, hsprite⟩ := hdraws [.setKey (.int 5)] rfl hp' hfamily' hn' 0
  rw [hx', hy', hdigit] at hsprite
  have hindex : (pointing.performAll (fun _ => 0) [.setKey (.int 5)]).index = 50 := by
    rw [hpointing]
    rfl
  obtain ⟨after', hafter', hrows⟩ :=
    (draws_rows_and_glyphs (fun _ => 0) hp').1 hfamily' (by rw [hindex, hn']; decide) 0
  obtain rfl : after' = after := congrArg Prod.snd (hafter'.symm.trans hafter)
  rw [hx', hy', hn', hindex] at hrows
  exact ⟨pointing, after', hs, hafter, hsprite, hrows⟩

end Machine

end ChipVm
