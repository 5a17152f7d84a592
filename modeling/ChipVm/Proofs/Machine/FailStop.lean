/-
Failed steps. A step that fails keeps the machine as it is, all but its timers, and as these have no
part in any fault the machine then fails again with the same cause, however often and at whatever
clock readings a host steps or runs it.
-/
import ChipVm.Proofs.Machine.Fault

namespace ChipVm

/-- Whether a command only lets a machine go on: a step, or a run of one cycle at least. -/
def Command.GoesOn : Command → Prop
  | .step _ => True
  | .run _ cycles => 0 < cycles
  | _ => False

namespace Machine

variable {random : RandomBytes} {m : Machine} {f : Fault}

/-- A machine in a fault fails whenever it is to go on, and only its timers move. -/
theorem perform_of_stepFault (random : RandomBytes) (h : StepFault m f) {c : Command}
    (hc : c.GoesOn) :
    ∃ t, m.perform random c = (.error (.fault f), { m with timers := t }) := by
  have hs : ∀ now, m.step random now = (.error (.fault f), m.tick now) :=
    fun now => step_eq_error_iff.2 ⟨f, h, rfl, rfl⟩
  cases c with
  | step now => exact ⟨_, by simp only [perform, hs]; rfl⟩
  | run clock cycles =>
    obtain ⟨n, hn⟩ : ∃ n, cycles.toNat = n + 1 :=
      ⟨cycles.toNat - 1, by have : 0 < cycles := hc; omega⟩
    exact ⟨_, by simp only [perform, run, hn, runFrom, hs]; rfl⟩
  | _ => cases hc

theorem performAll_of_stepFault (random : RandomBytes) (h : StepFault m f) {cs : List Command}
    (hcs : ∀ c ∈ cs, c.GoesOn) : ∃ t, m.performAll random cs = { m with timers := t } := by
  -- The timers are another machine's after each command, but the fault is the same.
  induction cs generalizing m with
  | nil => exact ⟨m.timers, rfl⟩
  | cons c cs ih =>
    obtain ⟨t, ht⟩ := perform_of_stepFault random h (hcs c List.mem_cons_self)
    obtain ⟨u, hu⟩ := ih (m := { m with timers := t }) (stepFault_timers_iff.2 h)
      fun d hd => hcs d (List.mem_cons_of_mem c hd)
    exact ⟨u, by rw [performAll, ht]; exact hu⟩

/-- A step that fails keeps every part of the machine but the timers, which are those of the one
tick of the step. The failure is for good: after any number of further steps and runs, at any clock
readings, the next step or run fails with the same cause, and still only the timers have moved. -/
theorem failed_step_keeps_and_recurs {now : Int} {e : Refusal}
    (h : (m.step random now).1 = .error e) :
    (m.step random now).2 = { m with timers := (m.timers.tick now).2 } ∧
    ∀ cs : List Command, (∀ c ∈ cs, c.GoesOn) →
      (∃ t, (m.step random now).2.performAll random cs = { m with timers := t }) ∧
      ∀ c : Command, c.GoesOn →
        (((m.step random now).2.performAll random cs).perform random c).1 = .error e := by
  obtain ⟨f, hf, rfl, hm⟩ := step_eq_error_iff.1 (Prod.ext h rfl)
  have ht : (m.step random now).2 = { m with timers := (m.timers.tick now).2 } := hm
  refine ⟨ht, fun cs hcs => ?_⟩
  have hf' := stepFault_timers_iff (t := (m.timers.tick now).2).2 hf
  obtain ⟨t, hall⟩ := performAll_of_stepFault random hf' hcs
  rw [ht, hall]
  refine ⟨⟨t, rfl⟩, fun c hc => ?_⟩
  obtain ⟨u, hu⟩ := perform_of_stepFault random (stepFault_timers_iff (t := t).2 hf) hc
  exact congrArg Prod.fst hu

/-- A machine about to store four registers over the glyphs, where the index stands at power-on. -/
def storingOverGlyphs : Machine :=
  { new {} with memory := Memory.initial.overlay 0x200 #[0xF3, 0x55] (by decide) }

theorem stepFault_storingOverGlyphs :
    StepFault storingOverGlyphs (.invalidAddress 0 .readOnlyGlyphs) := by
  have hw : storingOverGlyphs.word = .ofBytes 0xF3 0x55 := by
    simp only [word, storingOverGlyphs, new, Memory.programStart, Memory.byte_overlay]
    rfl
  exact .storeGlyphs (by decide) (by rw [hw]; decide) (by rw [hw]; decide) (by decide)

theorem storing_over_glyphs_recurs :
    (storingOverGlyphs.step (fun _ => 0) 7).1 =
      .error (.fault (.invalidAddress 0 .readOnlyGlyphs)) ∧
    (storingOverGlyphs.step (fun _ => 0) 7).2 =
      { storingOverGlyphs with timers := (storingOverGlyphs.timers.tick 7).2 } ∧
    ∀ cs : List Command, (∀ c ∈ cs, c.GoesOn) →
      (∃ t, (storingOverGlyphs.step (fun _ => 0) 7).2.performAll (fun _ => 0) cs =
        { storingOverGlyphs with timers := t }) ∧
      ∀ c : Command, c.GoesOn →
        (((storingOverGlyphs.step (fun _ => 0) 7).2.performAll (fun _ => 0) cs).perform
          (fun _ => 0) c).1 = .error (.fault (.invalidAddress 0 .readOnlyGlyphs)) := by
  have h : (storingOverGlyphs.step (fun _ => 0) 7).1 =
      .error (.fault (.invalidAddress 0 .readOnlyGlyphs)) := by
    rw [step_eq_error_iff.2 ⟨_, stepFault_storingOverGlyphs, rfl, rfl⟩]
  exact ⟨h, failed_step_keeps_and_recurs h⟩

end Machine

end ChipVm
