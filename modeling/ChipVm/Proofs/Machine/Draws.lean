/-
Random bytes are taken in their order, one for each word of family `C` that is executed and none at
any other time: none is lost where a step fails, a key is waited for or the mask is zero, and a
reset does not start the stream again.
-/
import ChipVm.Proofs.Machine.Footprint

namespace ChipVm

namespace Moment

/-- Whether a moment executes a word of family `C`. -/
def drawsByte (x : Moment) : Bool :=
  match x.command with
  | .step _ => x.machine.pc ≤ 4094 && x.machine.word.family == 0xC
  | _ => false

theorem drawsByte_iff {x : Moment} :
    x.drawsByte ↔
      ∃ now, x.command = .step now ∧
        x.machine.fetch = .ok (.random x.machine.word.x x.machine.word.low) := by
  obtain ⟨m, c⟩ := x
  cases c with
  | step now => simp [drawsByte, Machine.fetch_eq_ok_iff, Instruction.HasWord]
  | _ => simp [drawsByte]

theorem drawsByte_of_fetch {m : Machine} {x : Fin 16} {mask : UInt8} (now : Int)
    (hf : m.fetch = .ok (.random x mask)) : drawsByte ⟨m, .step now⟩ := by
  obtain ⟨-, -, rfl, rfl⟩ := Machine.fetch_eq_ok_iff.1 hf
  exact drawsByte_iff.2 ⟨now, rfl, hf⟩

/-- How many moments of a history execute a word of family `C`. -/
def draws (past : List Moment) : Nat := past.countP drawsByte

theorem draws_concat (past : List Moment) (x : Moment) :
    draws (past ++ [x]) = draws past + if x.drawsByte then 1 else 0 := by
  rw [draws, List.countP_append, List.countP_singleton]
  rfl

end Moment

namespace Machine

open Moment

variable {random : RandomBytes} {m : Machine} {x y : Fin 16} {mask : UInt8}

/-! ## One command -/

/-- An instruction that takes a random byte is not refused, and leaves the byte, masked, in its
register and all others as they are. -/
theorem step_random (random : RandomBytes) (now : Int) (hf : m.fetch = .ok (.random x mask)) :
    ∃ after, m.step random now = (.ok .advanced, after) ∧ after.drawn = m.drawn + 1 ∧
      ∀ z, after.registers.get z =
        if z = x then random m.drawn &&& mask else m.registers.get z := by
  refine ⟨_, step_of_execute hf rfl, rfl, fun z => ?_⟩
  rw [commit]
  simp only [Flow.target?, Registers.get_set, tick, eq_comm]

theorem drawn_step (random : RandomBytes) (m : Machine) (now : Int) :
    (m.step random now).2.drawn =
      m.drawn + if drawsByte ⟨m, .step now⟩ then 1 else 0 := by
  split
  · rename_i hdraws
    obtain ⟨-, -, hf⟩ := drawsByte_iff.1 hdraws
    obtain ⟨after, hs, hdrawn, -⟩ := step_random random now hf
    rw [hs, hdrawn]
  · rename_i hdraws
    rcases hs : m.step random now with ⟨e | status, after⟩
    · obtain ⟨f, -, -, rfl⟩ := step_eq_error_iff.1 hs
      rfl
    · obtain ⟨i, flow, k, pc, completed, hf, hx, rfl⟩ := step_touches hs
      refine (footprint_of_execute hx).drawn ?_
      rintro x mask rfl
      exact hdraws (drawsByte_of_fetch now hf)

theorem drawn_perform {c : Command} (hc : c.Single) :
    (m.perform random c).2.drawn = m.drawn + if drawsByte ⟨m, c⟩ then 1 else 0 := by
  obtain ⟨now, rfl⟩ | rfl | hedits := hc.step_or_reset_or_edits
  · rw [perform_step_snd]
    exact drawn_step random m now
  · rfl
  · have hno : ¬drawsByte ⟨m, c⟩ := by
      intro hdraws
      obtain ⟨now, rfl, -⟩ := drawsByte_iff.1 hdraws
      cases hedits
    rw [if_neg hno]
    exact (edited_of_edits random m hedits).drawn

/-! ## Histories -/

theorem drawn_concat {past : List Moment} {start k : Machine} {c : Command} (hc : c.Single)
    (h : k.drawn = start.drawn + draws past) :
    (k.perform random c).2.drawn = start.drawn + draws (past ++ [⟨k, c⟩]) := by
  rw [drawn_perform hc, h, draws_concat, Nat.add_assoc]

theorem drawn_performAll (random : RandomBytes) (m : Machine) (cs : List Command) :
    (m.performAll random cs).drawn = m.drawn + draws (m.moments random cs) :=
  moments_induction (motive := fun past k => k.drawn = m.drawn + draws past)
    (fun _ _ _ => drawn_concat) rfl cs

theorem drawn_at {cs : List Command} {past rest : List Moment} {x : Moment}
    (hx : m.moments random cs = past ++ x :: rest) :
    x.machine.drawn = m.drawn + draws past :=
  moments_induction_at (motive := fun past k => k.drawn = m.drawn + draws past)
    (fun _ _ _ => drawn_concat) rfl hx

/-- From power-on, as many random bytes have been taken at any time as words of family `C` have been
executed, in the middle of a run too. So each of these takes the byte whose number is how many have
been executed before it, and leaves it, masked, in its register and the others as they are. -/
theorem random_bytes_in_order (random : RandomBytes) {choice : Option Config.Choice}
    {program : Option ProgramSource} {m : Machine} (hboot : boot choice program = .ok m)
    (cs : List Command) :
    (m.performAll random cs).drawn = draws (m.moments random cs) ∧
    ∀ {past rest : List Moment} {x : Moment}, m.moments random cs = past ++ x :: rest →
      x.machine.drawn = draws past ∧
      (x.drawsByte → ∃ now after, x.command = .step now ∧
        x.machine.step random now = (.ok .advanced, after) ∧
        ∀ z, after.registers.get z =
          if z = x.machine.word.x then random (draws past) &&& x.machine.word.low
          else x.machine.registers.get z) := by
  have hstart : m.drawn = 0 := by
    obtain ⟨⟨memory, -, hm⟩, -⟩ := boot_ok hboot
    rw [hm]
    rfl
  refine ⟨by rw [drawn_performAll, hstart, Nat.zero_add], ?_⟩
  intro past rest x hx
  have hdrawn : x.machine.drawn = draws past := by rw [drawn_at hx, hstart, Nat.zero_add]
  refine ⟨hdrawn, fun hdraws => ?_⟩
  obtain ⟨now, hc, hf⟩ := drawsByte_iff.1 hdraws
  obtain ⟨after, hs, -, hregisters⟩ := step_random random now hf
  rw [hdrawn] at hregisters
  exact ⟨now, after, hc, hs, hregisters⟩

/-- A machine about to take a random byte with a mask that lets nothing through. -/
def masksAll : Machine :=
  { new {} with memory := Memory.initial.overlay 0x200 #[0xC0, 0x00] (by decide) }

/-- Random bytes of which the second one differs from all others. -/
def secondApart : RandomBytes := fun n => if n = 1 then 0xAB else 0xFF

/-- The second byte goes to the second word of family `C`, though the first one was masked and there
has been a reset in between. -/
theorem second_byte_after_reset :
    ∃ drawn loaded : Machine,
      boot none (some (.image [0xC0, 0x00])) = .ok masksAll ∧
      masksAll.moments secondApart
          [.step 0, .reset, .load (.image [0xC1, 0x0F]), .step 0] =
        [⟨masksAll, .step 0⟩, ⟨drawn, .reset⟩, ⟨drawn.reset, .load (.image [0xC1, 0x0F])⟩] ++
          ⟨loaded, .step 0⟩ :: [] ∧
      loaded.drawn = 1 ∧
      ∃ after, loaded.step secondApart 0 = (.ok .advanced, after) ∧
        after.registers.get 1 = 0x0B := by
  have hboot : boot none (some (.image [0xC0, 0x00])) = .ok masksAll := rfl
  have hf : masksAll.fetch = .ok (.random 0 0) :=
    fetch_of_overlay (p := 0x200) ⟨by decide, rfl⟩ rfl (by decide) rfl rfl ⟨rfl, rfl, rfl⟩
  obtain ⟨drawn, hs, hdrawn, -⟩ := step_random secondApart 0 hf
  obtain ⟨loaded, hl, hmemory, hpc⟩ : ∃ loaded,
      (drawn.reset.perform secondApart (.load (.image [0xC1, 0x0F]))).2 = loaded ∧
      (∃ fits, loaded.memory = drawn.reset.memory.overlay 0x200 #[0xC1, 0x0F] fits) ∧
      loaded.pc = 0x200 := ⟨_, rfl, ⟨by decide, rfl⟩, rfl⟩
  have hf' : loaded.fetch = .ok (.random 1 0x0F) :=
    fetch_of_overlay hmemory hpc (by decide) rfl rfl ⟨rfl, rfl, rfl⟩
  have hmoments : masksAll.moments secondApart
        [.step 0, .reset, .load (.image [0xC1, 0x0F]), .step 0] =
      [⟨masksAll, .step 0⟩, ⟨drawn, .reset⟩, ⟨drawn.reset, .load (.image [0xC1, 0x0F])⟩] ++
        ⟨loaded, .step 0⟩ :: [] := by
    have hreset (random : RandomBytes) : (drawn.perform random .reset).2 = drawn.reset := by
      rw [perform]
    simp only [moments, momentsOf, perform_step_snd, hs, hreset, hl, List.cons_append,
      List.nil_append]
  have hdraws : draws [⟨masksAll, .step 0⟩, ⟨drawn, .reset⟩,
      ⟨drawn.reset, .load (.image [0xC1, 0x0F])⟩] = 1 := by
    have hfirst : drawsByte ⟨masksAll, .step 0⟩ := drawsByte_of_fetch 0 hf
    rw [draws, List.countP_cons_of_pos hfirst]
    rfl
  obtain ⟨hcount, hbyte⟩ := (random_bytes_in_order _ hboot _).2 hmoments
  rw [hdraws] at hcount hbyte
  obtain ⟨now, after, hc, hs', hregisters⟩ := hbyte (drawsByte_of_fetch 0 hf')
  obtain ⟨-, -, hx, hlow⟩ := fetch_eq_ok_iff.1 hf'
  cases hc
  refine ⟨drawn, loaded, hboot, hmoments, hcount, after, hs', ?_⟩
  rw [hregisters, hx, hlow]
  rfl

end Machine

end ChipVm
