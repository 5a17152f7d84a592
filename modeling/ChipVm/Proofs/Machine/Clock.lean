/-
What the clock does to a machine. Its readings move the timers, and of all instructions only one
looks at these; as long as that one is not executed, the readings make no difference to anything
else.
-/
import ChipVm.Proofs.Machine.Independence
import ChipVm.Proofs.Machine.Simulation

namespace ChipVm

namespace Machine

variable {random : RandomBytes} {m k : Machine} {i : Instruction} {cs ds : List Command}

/-- Whether two machines differ in their timers only. -/
def SameButTimers (m k : Machine) : Prop := ∃ timers, k = { m with timers := timers }

namespace SameButTimers

theorem refl (m : Machine) : SameButTimers m m := ⟨m.timers, rfl⟩

theorem fetch (h : SameButTimers m k) : m.fetch = k.fetch := by
  obtain ⟨timers, rfl⟩ := h
  rfl

theorem tick (h : SameButTimers m k) (now now' : Int) :
    SameButTimers (m.tick now) (k.tick now') := by
  obtain ⟨timers, rfl⟩ := h
  exact ⟨_, rfl⟩

theorem execute (h : SameButTimers m k) (hi : ∀ x, i ≠ .readDelay x) (random : RandomBytes) :
    (m.execute random i).1 = (k.execute random i).1 ∧
      SameButTimers (m.execute random i).2 (k.execute random i).2 := by
  obtain ⟨timers, rfl⟩ := h
  by_cases huses : i.UsesTimers
  · cases i with
    | readDelay x => exact absurd rfl (hi x)
    | setDelay x | setSound x => exact ⟨rfl, _, rfl⟩
    | _ => cases huses
  · have hx : Machine.execute random { m with timers := timers } i =
        ((m.execute random i).1, { (m.execute random i).2 with timers := timers }) := by
      apply execute_changed (f := { timers := fun _ => timers })
      case hconfig => exact fun _ _ _ => Instruction.not_tellsApart rfl rfl
      case htimers => exact fun h => absurd h huses
      case hstack => exact fun _ => rfl
      case hkey => exact fun _ => rfl
      case hdrawn => exact fun _ => ⟨rfl, rfl⟩
    rw [hx]
    exact ⟨rfl, timers, rfl⟩

theorem edit (h : SameButTimers m k) {c : Command} (hc : c.Edits)
    (htimers : ∀ edit, c ≠ .timers edit) (random : RandomBytes) :
    (m.perform random c).1 = (k.perform random c).1 ∧
      SameButTimers (m.perform random c).2 (k.perform random c).2 := by
  obtain ⟨timers, rfl⟩ := h
  have hx : Machine.perform random { m with timers := timers } c =
      ((m.perform random c).1, { (m.perform random c).2 with timers := timers }) := by
    apply perform_changed (f := { timers := fun _ => timers }) random random hc
    case htimers =>
      rintro ⟨edit, rfl⟩
      exact absurd rfl (htimers edit)
    case hkey => exact fun _ => rfl
  rw [hx]
  exact ⟨rfl, timers, rfl⟩

theorem reset (h : SameButTimers m k) : k.reset = m.reset := by
  obtain ⟨timers, rfl⟩ := h
  cases m
  rfl

end SameButTimers

/-- Machines that differ in their timers go on alike up to the first instruction that reads one, at
whatever times. -/
theorem simulation_sameButTimers (random : RandomBytes) :
    Simulation random random (fun _ _ => True)
      (fun x => (∀ y, x.executed? random ≠ some (.readDelay y)) ∧ ∀ edit, x.command ≠ .timers edit)
      SameButTimers where
  fetch h := h.fetch
  pc := by
    rintro m _ ⟨timers, rfl⟩
    rfl
  goOn := by
    rintro m _ pc ⟨timers, rfl⟩
    exact ⟨timers, rfl⟩
  tick h _ := h.tick _ _
  execute := by
    rintro m k now now' i h - ⟨hallowed, -⟩ hf
    refine (h.tick now now').execute (fun x => ?_) random
    rintro rfl
    exact hallowed x (Moment.executed?_step_ok hf (step_of_execute hf rfl))
  other := by
    rintro m k c h (hc | rfl) ⟨-, htimers⟩
    · exact h.edit hc htimers random
    · rw [perform, perform, h.reset]
      exact ⟨rfl, .refl m.reset⟩

/-- The readings of the clock reach a program through the word that reads the delay timer and
through nothing else. Where none of these is executed, other readings give the same answers and
leave the same machine at any time, timers aside. -/
theorem clock_reaches_only_by_reads (random : RandomBytes) (h : SameButTimers m k)
    (hcs : List.Forall₂ (Command.Retimed fun _ _ => True) cs ds)
    (hhost : ∀ c ∈ cs, ∀ edit, c ≠ .timers edit)
    (hread : ∀ x ∈ m.moments random cs, ∀ y, x.executed? random ≠ some (.readDelay y)) :
    SameCourse random random SameButTimers m k cs ds := by
  refine (simulation_sameButTimers random).sameCourse h hcs fun x hx => ⟨hread x hx, ?_⟩
  obtain ⟨now, hc⟩ | hc := step_or_mem_of_mem_moments hx
  · rw [hc]
    exact fun _ => nofun
  · exact hhost _ hc

/-- A machine about to load a register while a timer counts. -/
def loadsWhileCounting : Machine :=
  { new {} with
    memory := Memory.initial.overlay 0x200 #[0x60, 0x05] (by decide)
    timers := ⟨9, 0, some 0⟩ }

theorem late_step_moves_timers_only :
    SameCourse (fun _ => 0) (fun _ => 0) SameButTimers loadsWhileCounting loadsWhileCounting
      [.step 0] [.step 20000000] ∧
    (loadsWhileCounting.performAll (fun _ => 0) [.step 0]).timers.delay = 9 ∧
    (loadsWhileCounting.performAll (fun _ => 0) [.step 20000000]).timers.delay = 8 := by
  have hf : loadsWhileCounting.fetch = .ok (.loadByte 0 5) :=
    fetch_of_overlay (p := 0x200) ⟨by decide, rfl⟩ rfl (by decide) rfl rfl ⟨rfl, rfl, rfl⟩
  have hs (now : Int) : loadsWhileCounting.step (fun _ => 0) now = _ := step_of_execute hf rfl
  have htimers (now : Int) : (loadsWhileCounting.performAll (fun _ => 0) [.step now]).timers =
      (Timers.tick ⟨9, 0, some 0⟩ now).2 := by
    rw [performAll, performAll, perform_step_snd, hs]
    rfl
  refine ⟨clock_reaches_only_by_reads _ (.refl _) (.cons (.step trivial) .nil) ?_ ?_, ?_, ?_⟩
  · simp
  · intro x hx y
    obtain rfl : x = ⟨loadsWhileCounting, .step 0⟩ := List.mem_singleton.1 hx
    rw [Moment.executed?_step_ok hf (hs 0)]
    rintro ⟨⟩
  · rw [htimers]
    rfl
  · rw [htimers]
    rfl

end Machine

end ChipVm
