/-
Histories. A run is as many steps as it makes, so that whatever a host does to a machine comes down
to moments: a machine and the command that it is about to carry out, which is not a run. What holds
of the history so far and is kept by every moment holds after any commands.
-/
import ChipVm.Proofs.Machine.Reachable
import ChipVm.Proofs.Machine.Step

namespace ChipVm

namespace Command

/-- Whether a command is no run. -/
def Single : Command → Prop
  | .run _ _ => False
  | _ => True

/-- Whether a command only changes or reads parts of a machine. -/
def Edits : Command → Prop
  | .step _ | .run _ _ | .reset => False
  | _ => True

theorem Single.step_or_reset_or_edits {c : Command} (hc : c.Single) :
    (∃ now, c = .step now) ∨ c = .reset ∨ c.Edits := by
  cases c with
  | step now => exact .inl ⟨now, rfl⟩
  | reset => exact .inr (.inl rfl)
  | run clock cycles => cases hc
  | _ => exact .inr (.inr trivial)

end Command

/-! ## Moments -/

/-- A machine and the command that it is about to carry out. -/
structure Moment where
  machine : Machine
  command : Command

namespace Moment

variable {random : RandomBytes}

/-- The instruction that a moment executes, if it is a step that goes through. -/
def executed? (random : RandomBytes) (x : Moment) : Option Instruction :=
  match x.command with
  | .step now =>
    match x.machine.step random now with
    | (.ok _, _) => x.machine.fetch.toOption
    | (.error _, _) => none
  | _ => none

theorem executed?_step_error {m after : Machine} {now : Int} {e : Refusal}
    (h : m.step random now = (.error e, after)) : executed? random ⟨m, .step now⟩ = none := by
  simp only [executed?, h]

theorem executed?_step_ok {m after : Machine} {now : Int} {status : Status} {i : Instruction}
    (hf : m.fetch = .ok i) (h : m.step random now = (.ok status, after)) :
    executed? random ⟨m, .step now⟩ = some i := by
  simp only [executed?, h, hf, Except.toOption]

theorem executed?_of_edits (m : Machine) {c : Command} (hc : c.Edits) :
    executed? random ⟨m, c⟩ = none := by
  cases c with
  | step now => cases hc
  | _ => rfl

theorem executed?_eq_some_iff {x : Moment} {i : Instruction} :
    x.executed? random = some i ↔
      ∃ now status after, x.command = .step now ∧ x.machine.fetch = .ok i ∧
        x.machine.step random now = (.ok status, after) := by
  obtain ⟨m, c⟩ := x
  constructor
  · intro h
    unfold executed? at h
    split at h
    · rename_i now hc
      split at h
      · rename_i status after hs
        cases hf : m.fetch with
        | error f =>
          rw [hf] at h
          cases h
        | ok j =>
          rw [hf] at h
          cases h
          exact ⟨now, status, after, hc, rfl, hs⟩
      · cases h
    · cases h
  · rintro ⟨now, status, after, rfl, hf, hs⟩
    exact executed?_step_ok hf hs

end Moment

namespace Machine

variable {random : RandomBytes}

theorem load_ok {m after : Machine} {image : List UInt8} (h : m.load image = .ok after) :
    ∃ memory, m.memory.load image = .ok memory ∧ after = { m with memory := memory } := by
  unfold load at h
  cases hl : m.memory.load image with
  | error f =>
    rw [hl] at h
    cases h
  | ok memory =>
    rw [hl] at h
    cases h
    exact ⟨memory, rfl, rfl⟩

/-- A machine at power-on is a new one but for the program in its memory, and without a program it
is a new one. -/
theorem boot_ok {choice : Option Config.Choice} {program : Option ProgramSource} {m : Machine}
    (h : boot choice program = .ok m) :
    (∃ memory, (memory = .initial ∨ ∃ image, Memory.initial.load image = .ok memory) ∧
      m = { new m.config with memory := memory }) ∧ boot choice none = .ok (new m.config) := by
  unfold boot at h ⊢
  cases hp : Config.picked choice with
  | error e =>
    rw [hp] at h
    cases h
  | ok picked =>
    rw [hp] at h
    simp only at h
    split at h
    · cases h
      exact ⟨⟨_, .inl rfl, rfl⟩, rfl⟩
    · cases h
    · split at h
      · rename_i hl
        cases h
        obtain ⟨memory, hload, rfl⟩ := load_ok hl
        exact ⟨⟨memory, .inr ⟨_, hload⟩, rfl⟩, rfl⟩
      · cases h

/-- What an edit leaves alone: all that only instructions change, and the key and the timers unless
it is meant for these. -/
structure Edited (c : Command) (m after : Machine) : Prop where
  config : after.config = m.config := by rfl
  index : after.index = m.index := by rfl
  pc : after.pc = m.pc := by rfl
  stack : after.stack = m.stack := by rfl
  completed : after.completed = m.completed := by rfl
  drawn : after.drawn = m.drawn := by rfl
  key : (∀ value, c ≠ .setKey value) → after.key = m.key := by exact fun _ => rfl
  timers : (∀ edit, c ≠ .timers edit) → after.timers = m.timers := by exact fun _ => rfl

theorem edited_of_edits (random : RandomBytes) (m : Machine) {c : Command} (hc : c.Edits) :
    Edited c m (m.perform random c).2 := by
  cases c with
  | step now => cases hc
  | run clock cycles => cases hc
  | reset => cases hc
  | timers edit => exact { timers := fun h => absurd rfl (h edit) }
  | setKey value =>
    rw [perform]
    split
    · exact { key := fun h => absurd rfl (h value) }
    · exact {}
  | load source =>
    rw [perform]
    split
    · exact {}
    · split
      · rename_i hl
        obtain ⟨memory, -, rfl⟩ := load_ok hl
        exact {}
      · exact {}
  | _ =>
    rw [perform]
    split <;> exact {}

/-! ## Histories -/

/-- The moments of up to `cycles` further steps of a run that has made `made`. -/
def runMoments (random : RandomBytes) (clock : Nat → Int) (made : Nat) :
    Nat → Machine → List Moment
  | 0, _ => []
  | cycles + 1, m =>
    ⟨m, .step (clock made)⟩ ::
      match m.step random (clock made) with
      | (.ok .advanced, after) => runMoments random clock (made + 1) cycles after
      | _ => []

/-- The moments of a command. -/
def momentsOf (random : RandomBytes) (m : Machine) : Command → List Moment
  | .run clock cycles => m.runMoments random clock 0 cycles.toNat
  | c => [⟨m, c⟩]

/-- The moments of many commands, one after another. -/
def moments (random : RandomBytes) (m : Machine) : List Command → List Moment
  | [] => []
  | c :: cs => m.momentsOf random c ++ (m.perform random c).2.moments random cs

theorem command_of_mem_runMoments {clock : Nat → Int} {made cycles : Nat} {m : Machine} {x : Moment}
    (hx : x ∈ m.runMoments random clock made cycles) : ∃ now, x.command = .step now := by
  induction cycles generalizing m made with
  | zero => cases hx
  | succ cycles ih =>
    rw [runMoments, List.mem_cons] at hx
    rcases hx with rfl | hx
    · exact ⟨clock made, rfl⟩
    · split at hx
      · exact ih hx
      · cases hx

/-- The moments are steps and commands that the host has given. -/
theorem step_or_mem_of_mem_moments {m : Machine} {cs : List Command} {x : Moment}
    (hx : x ∈ m.moments random cs) : (∃ now, x.command = .step now) ∨ x.command ∈ cs := by
  induction cs generalizing m with
  | nil => cases hx
  | cons c cs ih =>
    rw [moments, List.mem_append] at hx
    rcases hx with hx | hx
    · cases c with
      | run clock cycles => exact .inl (command_of_mem_runMoments hx)
      | _ =>
        obtain rfl := List.mem_singleton.1 hx
        exact .inr List.mem_cons_self
    · rcases ih hx with hstep | hmem
      · exact .inl hstep
      · exact .inr (List.mem_cons_of_mem c hmem)

section Induction

variable {motive : List Moment → Machine → Prop}
  (moment : ∀ past k c, c.Single → motive past k →
    motive (past ++ [⟨k, c⟩]) (k.perform random c).2)

include moment

theorem runMoments_induction {past : List Moment} {m : Machine} (h : motive past m)
    (clock : Nat → Int) (made cycles : Nat) :
    motive (past ++ m.runMoments random clock made cycles)
      (m.runFrom random clock made cycles).2 := by
  induction cycles generalizing past m made with
  | zero => simpa [runMoments, runFrom] using h
  | succ cycles ih =>
    have hs := moment past m (.step (clock made)) trivial h
    rw [perform_step_snd] at hs
    rw [runMoments, runFrom]
    rcases hr : m.step random (clock made) with ⟨_ | _ | _, after⟩
    all_goals rw [hr] at hs
    · exact hs
    · simpa using ih hs (made + 1)
    · exact hs

theorem moments_induction_from {past : List Moment} {m : Machine} (h : motive past m)
    (cs : List Command) :
    motive (past ++ m.moments random cs) (m.performAll random cs) := by
  induction cs generalizing past m with
  | nil => simpa [moments, performAll] using h
  | cons c cs ih =>
    rw [moments, performAll, ← List.append_assoc]
    apply ih
    cases c with
    | run clock cycles =>
      rw [perform_run_snd]
      exact runMoments_induction moment h clock 0 cycles.toNat
    | _ => exact moment past m _ trivial h

/-- What every moment keeps, with itself added to the history, holds after any commands. -/
theorem moments_induction {m : Machine} (start : motive [] m) (cs : List Command) :
    motive (m.moments random cs) (m.performAll random cs) :=
  moments_induction_from moment start cs

/-- It also holds at each moment on the way, those in the middle of a run included. -/
theorem moments_induction_at {m : Machine} (start : motive [] m) {cs : List Command}
    {past rest : List Moment} {x : Moment} (hx : m.moments random cs = past ++ x :: rest) :
    motive past x.machine := by
  have hall : motive (m.moments random cs) (m.performAll random cs) ∧
      ∀ past x rest, m.moments random cs = past ++ x :: rest → motive past x.machine := by
    refine moments_induction (motive := fun all k => motive all k ∧
      ∀ past x rest, all = past ++ x :: rest → motive past x.machine) ?_ ⟨start, ?_⟩ cs
    · rintro all k c hc ⟨hall, hat⟩
      refine ⟨moment all k c hc hall, ?_⟩
      intro past x rest h
      rcases List.eq_nil_or_concat rest with rfl | ⟨rest, y, rfl⟩
      · obtain ⟨rfl, hlast⟩ := List.append_inj' h rfl
        cases hlast
        exact hall
      · rw [List.concat_eq_append, ← List.cons_append, ← List.append_assoc] at h
        exact hat past x rest (List.append_inj' h rfl).1
    · intro past x rest h
      cases past <;> cases h
  exact hall.2 past x rest hx

end Induction

/-! ## The configuration -/

theorem config_reset (m : Machine) : m.reset.config = m.config := by rw [reset]

theorem config_step (random : RandomBytes) (m : Machine) (now : Int) :
    (m.step random now).2.config = m.config := by
  obtain ⟨e, hs⟩ | ⟨i, status, after, -, hs, hframe⟩ := step_cases random m now
  · rw [hs]
    rfl
  · rw [hs]
    exact hframe.config

theorem config_performAll (random : RandomBytes) (m : Machine) (cs : List Command) :
    (m.performAll random cs).config = m.config := by
  refine moments_induction (motive := fun _ k => k.config = m.config)
    (fun _ k c hc hk => ?_) rfl cs
  rw [← hk]
  obtain ⟨now, rfl⟩ | rfl | he := hc.step_or_reset_or_edits
  · rw [perform_step_snd]
    exact config_step random k now
  · exact config_reset k
  · exact (edited_of_edits random k he).config

end Machine

end ChipVm
