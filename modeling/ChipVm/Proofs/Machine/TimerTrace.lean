/-
The timers of a machine are timers on their own that are told what happens: they tick at each step,
whatever comes of it, and are then assigned what the instruction assigns, if it goes through; a
reset resets them. Nothing else reaches them.
-/
import ChipVm.Proofs.Machine.Footprint
import ChipVm.Proofs.Timers.Gate

namespace ChipVm

/-! ## Traces -/

/-- What an instruction assigns to one of the timers. -/
def Instruction.timerEdit? (registers : Registers) : Instruction → Option Timers.Edit
  | .setDelay x => some (.setDelay (registers.get x).toNat)
  | .setSound x => some (.setSound (registers.get x).toNat)
  | _ => none

/-- What the timers are told at a moment: of a step first its tick and then what its instruction
assigns. -/
def Moment.timerEdits (random : RandomBytes) (x : Moment) : List Timers.Edit :=
  match x.command with
  | .step now =>
    .tick now :: ((x.executed? random).bind (·.timerEdit? x.machine.registers)).toList
  | .reset => [.reset]
  | .timers edit => [edit]
  | _ => []

/-- What the timers are told in a history. -/
def timerTrace (random : RandomBytes) (past : List Moment) : List Timers.Edit :=
  past.flatMap (·.timerEdits random)

theorem timerTrace_concat (random : RandomBytes) (past : List Moment) (x : Moment) :
    timerTrace random (past ++ [x]) = timerTrace random past ++ x.timerEdits random := by
  simp [timerTrace]

namespace Machine

variable {random : RandomBytes} {m after : Machine} {i : Instruction} {flow : Flow}

/-! ## One step -/

theorem timers_of_execute (h : m.execute random i = (.ok flow, after)) :
    after.timers = m.timers.editAll (i.timerEdit? m.registers).toList := by
  cases i with
  | setDelay x | setSound x =>
    cases h
    simp [Instruction.timerEdit?, Timers.editAll, Timers.edit, Timers.setDelay, Timers.setSound]
  | _ => exact (footprint_of_execute h).timers id

theorem timers_step (random : RandomBytes) (m : Machine) (now : Int) :
    (m.step random now).2.timers =
      m.timers.editAll (Moment.timerEdits random ⟨m, .step now⟩) := by
  rcases hs : m.step random now with ⟨e | status, after⟩
  · obtain ⟨f, -, -, rfl⟩ := step_eq_error_iff.1 hs
    rw [Moment.timerEdits, Moment.executed?_step_error hs]
    rfl
  · obtain ⟨i, flow, k, pc, completed, hf, hx, rfl⟩ := step_touches hs
    rw [Moment.timerEdits, Moment.executed?_step_ok hf hs]
    exact timers_of_execute hx

theorem timers_perform {c : Command} (hc : c.Single) :
    (m.perform random c).2.timers = m.timers.editAll (Moment.timerEdits random ⟨m, c⟩) := by
  cases c with
  | step now =>
    rw [perform_step_snd]
    exact timers_step random m now
  | run clock cycles => cases hc
  | reset => rfl
  | timers edit => rfl
  | _ => exact (edited_of_edits random m (by trivial)).timers (by simp)

theorem step_readDelay {x : Fin 16} (random : RandomBytes) (now : Int)
    (hf : m.fetch = .ok (.readDelay x)) :
    ∃ after, m.step random now = (.ok .advanced, after) ∧
      after.registers.get x = (m.timers.tick now).2.delay := by
  refine ⟨_, step_of_execute hf rfl, ?_⟩
  rw [commit]
  simp [Flow.target?, Registers.get_set, tick]

/-! ## Histories -/

theorem timers_concat {past : List Moment} {start k : Machine} {c : Command} (hc : c.Single)
    (h : k.timers = start.timers.editAll (timerTrace random past)) :
    (k.perform random c).2.timers =
      start.timers.editAll (timerTrace random (past ++ [⟨k, c⟩])) := by
  rw [timers_perform hc, timerTrace_concat, Timers.editAll_append, h]

theorem timers_performAll (random : RandomBytes) (m : Machine) (cs : List Command) :
    (m.performAll random cs).timers =
      m.timers.editAll (timerTrace random (m.moments random cs)) :=
  moments_induction
    (motive := fun past k => k.timers = m.timers.editAll (timerTrace random past))
    (fun _ _ _ => timers_concat) rfl cs

theorem timers_at {cs : List Command} {past rest : List Moment} {x : Moment}
    (hx : m.moments random cs = past ++ x :: rest) :
    x.machine.timers = m.timers.editAll (timerTrace random past) :=
  moments_induction_at
    (motive := fun past k => k.timers = m.timers.editAll (timerTrace random past))
    (fun _ _ _ => timers_concat) rfl hx

/-- The timers are at any time, in the middle of a run too, what a new pair of its own would be
after the trace of the history. And an instruction that reads the delay timer finds it as the tick
of its own step has left it. -/
theorem timers_follow_trace (random : RandomBytes) :
    (∀ {choice : Option Config.Choice} {program : Option ProgramSource} {m : Machine},
      boot choice program = .ok m → ∀ cs : List Command,
        (m.performAll random cs).timers =
          Timers.initial.editAll (timerTrace random (m.moments random cs)) ∧
        ∀ {past rest : List Moment} {x : Moment}, m.moments random cs = past ++ x :: rest →
          x.machine.timers = Timers.initial.editAll (timerTrace random past)) ∧
    ∀ {m : Machine} {x : Fin 16} (now : Int), m.fetch = .ok (.readDelay x) →
      ∃ after, m.step random now = (.ok .advanced, after) ∧
        after.registers.get x = (m.timers.tick now).2.delay := by
  refine ⟨?_, fun now => step_readDelay random now⟩
  intro choice program m hboot cs
  have hstart : m.timers = Timers.initial := by
    obtain ⟨⟨memory, -, hm⟩, -⟩ := boot_ok hboot
    rw [hm]
    rfl
  rw [← hstart]
  exact ⟨timers_performAll random m cs, timers_at⟩

/-- A machine about to load a register, to start the delay timer from it and to read it back. -/
def countsDown : Machine :=
  { new {} with
    memory := Memory.initial.overlay 0x200 #[0x60, 0x09, 0xF0, 0x15, 0xF1, 0x07] (by decide) }

theorem delay_read_after_tick :
    ∃ loaded armed : Machine,
      boot none (some (.image [0x60, 0x09, 0xF0, 0x15, 0xF1, 0x07])) = .ok countsDown ∧
      timerTrace (fun _ => 0) [⟨countsDown, .step 0⟩, ⟨loaded, .step 0⟩] =
        [.tick 0, .tick 0, .setDelay 9] ∧
      armed.timers = Timers.initial.editAll [.tick 0, .tick 0, .setDelay 9] ∧
      ∃ after, armed.step (fun _ => 0) 16666666 = (.ok .advanced, after) ∧
        after.registers.get 1 = 8 := by
  obtain ⟨htrace, hread⟩ := timers_follow_trace fun _ => 0
  have hboot : boot none (some (.image [0x60, 0x09, 0xF0, 0x15, 0xF1, 0x07])) =
      .ok countsDown := rfl
  have hf : countsDown.fetch = .ok (.loadByte 0 9) :=
    fetch_of_overlay (p := 0x200) ⟨by decide, rfl⟩ rfl (by decide) rfl rfl ⟨rfl, rfl, rfl⟩
  obtain ⟨loaded, hs, hmemory, hpc, hnine⟩ : ∃ loaded,
      countsDown.step (fun _ => 0) 0 = (.ok .advanced, loaded) ∧
      loaded.memory = countsDown.memory ∧ loaded.pc = 0x202 ∧ loaded.registers.get 0 = 9 :=
    ⟨_, step_of_execute hf rfl, rfl, rfl, rfl⟩
  have hf' : loaded.fetch = .ok (.setDelay 0) :=
    fetch_of_overlay (p := 0x202) ⟨by decide, hmemory⟩ hpc (by decide) rfl rfl ⟨rfl, rfl, rfl⟩
  obtain ⟨armed, hs', hmemory', hpc'⟩ : ∃ armed,
      loaded.step (fun _ => 0) 0 = (.ok .advanced, armed) ∧
      armed.memory = countsDown.memory ∧ armed.pc = 0x204 :=
    ⟨_, step_of_execute hf' rfl, hmemory, congrArg (· + 2) hpc⟩
  have hf'' : armed.fetch = .ok (.readDelay 1) :=
    fetch_of_overlay (p := 0x204) ⟨by decide, hmemory'⟩ hpc' (by decide) rfl rfl ⟨rfl, rfl, rfl⟩
  have hmoments : countsDown.moments (fun _ => 0) [.step 0, .step 0, .step 16666666] =
      [⟨countsDown, .step 0⟩, ⟨loaded, .step 0⟩] ++ ⟨armed, .step 16666666⟩ :: [] := by
    simp only [moments, momentsOf, perform_step_snd, hs, hs', List.cons_append, List.nil_append]
  have htold : timerTrace (fun _ => 0) [⟨countsDown, .step 0⟩, ⟨loaded, .step 0⟩] =
      [.tick 0, .tick 0, .setDelay 9] := by
    simp only [timerTrace, List.flatMap_cons, List.flatMap_nil, Moment.timerEdits,
      Moment.executed?_step_ok hf hs, Moment.executed?_step_ok hf' hs', Option.bind_some,
      Instruction.timerEdit?, hnine]
    rfl
  have hat := (htrace hboot _).2 hmoments
  rw [htold] at hat
  obtain ⟨after, hs'', hdelay⟩ := hread 16666666 hf''
  refine ⟨loaded, armed, hboot, htold, hat, after, hs'', ?_⟩
  rw [hdelay, hat]
  rfl

end Machine

end ChipVm
