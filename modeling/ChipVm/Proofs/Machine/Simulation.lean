/-
Two machines side by side. If a relation of machines is kept by each step and by each other command,
with the same answers, it is kept by any commands, runs among them. The two may read the clock
differently, and what they are about to do may be restricted by what the first one does.
-/
import ChipVm.Proofs.Machine.History
import Mathlib.Data.List.Forall2

namespace ChipVm

namespace Command

/-- Whether two commands are the same, but for clock readings, which are related. -/
inductive Retimed (reads : Int → Int → Prop) : Command → Command → Prop where
  | step {now now' : Int} (h : reads now now') : Retimed reads (.step now) (.step now')
  | run {clock clock' : Nat → Int} (h : ∀ n, reads (clock n) (clock' n)) (cycles : Int) :
    Retimed reads (.run clock cycles) (.run clock' cycles)
  | other {c : Command} (h : c.Edits ∨ c = .reset) : Retimed reads c c

theorem Retimed.refl (c : Command) : Retimed Eq c c := by
  cases c with
  | step now => exact .step rfl
  | run clock cycles => exact .run (fun _ => rfl) cycles
  | reset => exact .other (.inr rfl)
  | _ => exact .other (.inl trivial)

theorem forall₂_retimed_refl (cs : List Command) : List.Forall₂ (Retimed Eq) cs cs :=
  List.forall₂_same.2 fun c _ => .refl c

end Command

namespace Machine

/-- The answers to many commands, one after another. -/
def answers (random : RandomBytes) (m : Machine) : List Command → List (Except Refusal Answer)
  | [] => []
  | c :: cs => (m.perform random c).1 :: (m.perform random c).2.answers random cs

theorem performAll_append (random : RandomBytes) (m : Machine) (cs ds : List Command) :
    m.performAll random (cs ++ ds) = (m.performAll random cs).performAll random ds := by
  induction cs generalizing m with
  | nil => rfl
  | cons c cs ih => rw [List.cons_append, performAll, performAll, ih]

theorem answers_append (random : RandomBytes) (m : Machine) (cs ds : List Command) :
    m.answers random (cs ++ ds) =
      m.answers random cs ++ (m.performAll random cs).answers random ds := by
  induction cs generalizing m with
  | nil => rfl
  | cons c cs ih => rw [List.cons_append, answers, answers, performAll, ih, List.cons_append]

/-- Whether two machines take the same course under two lists of commands, as far as a relation
tells: they answer alike, and the relation holds at each moment and at the end. -/
structure SameCourse (random random' : RandomBytes) (R : Machine → Machine → Prop)
    (m k : Machine) (cs ds : List Command) : Prop where
  answers : m.answers random cs = k.answers random' ds
  moments : List.Forall₂ (fun x y => R x.machine y.machine)
    (m.moments random cs) (k.moments random' ds)
  final : R (m.performAll random cs) (k.performAll random' ds)

/-- A relation of machines that stand at the same instruction, kept by each step that the first one
is allowed to make. -/
structure StepSimulation (random random' : RandomBytes) (reads : Int → Int → Prop)
    (Allowed : Moment → Prop) (R : Machine → Machine → Prop) : Prop where
  fetch : ∀ {m k : Machine}, R m k → m.fetch = k.fetch
  pc : ∀ {m k : Machine}, R m k → m.pc = k.pc
  goOn : ∀ {m k : Machine} (pc : Nat), R m k →
    R { m with pc := pc, completed := m.completed + 1 }
      { k with pc := pc, completed := k.completed + 1 }
  tick : ∀ {m k : Machine} {now now' : Int}, R m k → reads now now' →
    R (m.tick now) (k.tick now')
  execute : ∀ {m k : Machine} {now now' : Int} {i : Instruction}, R m k → reads now now' →
    Allowed ⟨m, .step now⟩ → m.fetch = .ok i →
    ((m.tick now).execute random i).1 = ((k.tick now').execute random' i).1 ∧
      R ((m.tick now).execute random i).2 ((k.tick now').execute random' i).2

/-- Such a relation that is also kept by each other command. -/
structure Simulation (random random' : RandomBytes) (reads : Int → Int → Prop)
    (Allowed : Moment → Prop) (R : Machine → Machine → Prop) : Prop
    extends StepSimulation random random' reads Allowed R where
  other : ∀ {m k : Machine} {c : Command}, R m k → c.Edits ∨ c = .reset → Allowed ⟨m, c⟩ →
    (m.perform random c).1 = (k.perform random' c).1 ∧
      R (m.perform random c).2 (k.perform random' c).2

variable {random random' : RandomBytes} {reads : Int → Int → Prop} {Allowed : Moment → Prop}
  {R : Machine → Machine → Prop} {m k : Machine}

/-! ## Steps -/

namespace StepSimulation

variable (hsim : StepSimulation random random' reads Allowed R)

include hsim

theorem commit (h : R m k) (flow : Flow) :
    (m.commit flow).1 = (k.commit flow).1 ∧ R (m.commit flow).2 (k.commit flow).2 := by
  unfold Machine.commit
  rw [hsim.pc h]
  cases flow.target? k.pc with
  | none => exact ⟨rfl, h⟩
  | some pc => exact ⟨rfl, hsim.goOn pc h⟩

theorem step {now now' : Int} (h : R m k) (hnow : reads now now')
    (hallowed : Allowed ⟨m, .step now⟩) :
    (m.step random now).1 = (k.step random' now').1 ∧
      R (m.step random now).2 (k.step random' now').2 := by
  unfold Machine.step cycle
  rw [fetch_tick, fetch_tick, ← hsim.fetch h]
  cases hf : m.fetch with
  | error f => exact ⟨rfl, hsim.tick h hnow⟩
  | ok i =>
    obtain ⟨hresult, hafter⟩ := hsim.execute h hnow hallowed hf
    rcases hm : (m.tick now).execute random i with ⟨result, after⟩
    rcases hk : (k.tick now').execute random' i with ⟨result', after'⟩
    rw [hm, hk] at hresult hafter
    obtain rfl : result = result' := hresult
    simp only [hm, hk]
    cases result with
    | error e => exact ⟨rfl, hafter⟩
    | ok flow =>
      obtain ⟨hstatus, hcommit⟩ := hsim.commit hafter flow
      exact ⟨congrArg Except.ok hstatus, hcommit⟩

end StepSimulation

/-! ## Commands -/

namespace Simulation

variable (hsim : Simulation random random' reads Allowed R)

include hsim

theorem runFrom {clock clock' : Nat → Int} (h : R m k)
    (hclock : ∀ n, reads (clock n) (clock' n)) {made cycles : Nat}
    (hallowed : ∀ x ∈ m.runMoments random clock made cycles, Allowed x) :
    (m.runFrom random clock made cycles).1 = (k.runFrom random' clock' made cycles).1 ∧
      R (m.runFrom random clock made cycles).2 (k.runFrom random' clock' made cycles).2 ∧
      List.Forall₂ (fun x y => R x.machine y.machine)
        (m.runMoments random clock made cycles) (k.runMoments random' clock' made cycles) := by
  induction cycles generalizing m k made with
  | zero => exact ⟨rfl, h, .nil⟩
  | succ cycles ih =>
    rw [runMoments] at hallowed
    rw [Machine.runFrom, Machine.runFrom, runMoments, runMoments]
    obtain ⟨hresult, hafter⟩ := hsim.step h (hclock made) (hallowed _ List.mem_cons_self)
    rcases hm : m.step random (clock made) with ⟨result, after⟩
    rcases hk : k.step random' (clock' made) with ⟨result', after'⟩
    rw [hm, hk] at hresult hafter
    rw [hm] at hallowed
    obtain rfl : result = result' := hresult
    rcases result with e | _ | _
    · exact ⟨rfl, hafter, .cons h .nil⟩
    · have hrest : ∀ x ∈ after.runMoments random clock (made + 1) cycles, Allowed x :=
        fun x hx => hallowed x (List.mem_cons_of_mem _ hx)
      obtain ⟨hcount, hfinal, hmoments⟩ := ih hafter hrest
      exact ⟨hcount, hfinal, .cons h hmoments⟩
    · exact ⟨rfl, hafter, .cons h .nil⟩

theorem perform {c d : Command} (h : R m k) (hcd : c.Retimed reads d)
    (hallowed : ∀ x ∈ m.momentsOf random c, Allowed x) :
    (m.perform random c).1 = (k.perform random' d).1 ∧
      R (m.perform random c).2 (k.perform random' d).2 ∧
      List.Forall₂ (fun x y => R x.machine y.machine)
        (m.momentsOf random c) (k.momentsOf random' d) := by
  cases hcd with
  | step hnow =>
    obtain ⟨hresult, hafter⟩ := hsim.step h hnow (hallowed _ List.mem_cons_self)
    rw [perform_step_fst, perform_step_fst, perform_step_snd, perform_step_snd, hresult]
    exact ⟨rfl, hafter, .cons h .nil⟩
  | run hclock cycles =>
    obtain ⟨hresult, hafter, hmoments⟩ := hsim.runFrom h hclock hallowed
    rw [perform_run_fst, perform_run_fst, perform_run_snd, perform_run_snd]
    exact ⟨congrArg (Except.map Answer.count) hresult, hafter, hmoments⟩
  | other hc =>
    have hsingle (m : Machine) (random : RandomBytes) : m.momentsOf random c = [⟨m, c⟩] := by
      cases c with
      | run clock cycles => rcases hc with hc | hc <;> cases hc
      | _ => rfl
    rw [hsingle m] at hallowed ⊢
    rw [hsingle k]
    obtain ⟨hresult, hafter⟩ := hsim.other h hc (hallowed _ List.mem_cons_self)
    exact ⟨hresult, hafter, .cons h .nil⟩

/-- Machines in the relation take the same course, as long as the first one makes no step that it is
not allowed. -/
theorem sameCourse {cs ds : List Command} (h : R m k)
    (hcs : List.Forall₂ (Command.Retimed reads) cs ds)
    (hallowed : ∀ x ∈ m.moments random cs, Allowed x) :
    SameCourse random random' R m k cs ds := by
  induction hcs generalizing m k with
  | nil => exact ⟨rfl, .nil, h⟩
  | cons hcd _ ih =>
    rw [moments] at hallowed
    obtain ⟨hanswer, hafter, hmoments⟩ :=
      hsim.perform h hcd fun x hx => hallowed x (List.mem_append_left _ hx)
    obtain ⟨hanswers, hrest, hfinal⟩ :=
      ih hafter fun x hx => hallowed x (List.mem_append_right _ hx)
    refine ⟨?_, ?_, hfinal⟩
    · rw [Machine.answers, Machine.answers, hanswer, hanswers]
    · exact List.rel_append hmoments hrest

end Simulation

end Machine

end ChipVm
