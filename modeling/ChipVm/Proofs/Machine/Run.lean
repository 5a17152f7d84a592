/-
Runs. A run makes one step after another until its budget is used up, a step waits for a key or a
step fails. Told by its steps, it can be split wherever none of them has waited or failed; and the
count of completed instructions tells the steps that have gone on, not the one that waits.
-/
import ChipVm.Proofs.Machine.Footprint

namespace ChipVm.Machine

/-! ## Steps in a row -/

/-- The machine after `n` steps, whatever comes of them; the step after `n` others reads the clock
as `clock n`. -/
def stepped (random : RandomBytes) (clock : Nat → Int) (m : Machine) : Nat → Machine
  | 0 => m
  | n + 1 => ((m.stepped random clock n).step random (clock n)).2

/-- What comes of the step after `n` others. -/
def outcome (random : RandomBytes) (clock : Nat → Int) (m : Machine) (n : Nat) :
    Except Refusal Status :=
  ((m.stepped random clock n).step random (clock n)).1

/-- Whether each of the first `n` steps goes on. -/
def AdvancesFor (random : RandomBytes) (clock : Nat → Int) (m : Machine) (n : Nat) : Prop :=
  ∀ i < n, m.outcome random clock i = .ok .advanced

variable {random : RandomBytes} {clock : Nat → Int} {m : Machine} {n : Nat} {e : Refusal}

theorem outcome_zero : m.outcome random clock 0 = (m.step random (clock 0)).1 := rfl

theorem stepped_one : m.stepped random clock 1 = (m.step random (clock 0)).2 := rfl

theorem stepped_succ_of_outcome {result : Except Refusal Status}
    (h : m.outcome random clock n = result) :
    (m.stepped random clock n).step random (clock n) =
      (result, m.stepped random clock (n + 1)) :=
  Prod.ext h rfl

theorem completed_stepped (h : m.AdvancesFor random clock n) :
    (m.stepped random clock n).completed = m.completed + n := by
  induction n with
  | zero => rfl
  | succ n ih =>
    have hs := stepped_succ_of_outcome (h n (Nat.lt_succ_self n))
    have hbefore := ih fun i hi => h i (Nat.lt_succ_of_lt hi)
    rw [(changesOnly_of_step hs).completed, hbefore, Nat.add_assoc]

theorem stepped_of_waiting (h : m.outcome random clock n = .ok .waitingForKey) :
    m.stepped random clock (n + 1) = (m.stepped random clock n).tick (clock n) := by
  obtain ⟨x, -, -, hafter⟩ := step_waiting (stepped_succ_of_outcome h)
  exact hafter

theorem stepped_of_error (h : m.outcome random clock n = .error e) :
    m.stepped random clock (n + 1) = (m.stepped random clock n).tick (clock n) := by
  obtain ⟨f, -, -, hafter⟩ := step_eq_error_iff.1 (stepped_succ_of_outcome h)
  exact hafter

/-! ## Runs by their steps -/

/-- As long as the steps go on, a run is at the machine they lead to, with what is left of its
budget. -/
theorem runFrom_of_advancesFor (h : m.AdvancesFor random clock n) (cycles : Nat) :
    m.runFrom random clock 0 (n + cycles) =
      (m.stepped random clock n).runFrom random clock n cycles := by
  induction n generalizing cycles with
  | zero => rw [Nat.zero_add]; rfl
  | succ n ih =>
    have hs := stepped_succ_of_outcome (h n (Nat.lt_succ_self n))
    rw [Nat.add_right_comm, Nat.add_assoc, ih (fun i hi => h i (Nat.lt_succ_of_lt hi)), runFrom, hs]

/-- A run that has made some steps is a run from there, but for the count and the clock. -/
theorem runFrom_add (m : Machine) (a made cycles : Nat) :
    m.runFrom random clock (a + made) cycles =
      ((m.runFrom random (fun n => clock (a + n)) made cycles).1.map (a + ·),
        (m.runFrom random (fun n => clock (a + n)) made cycles).2) := by
  induction cycles generalizing m made with
  | zero => rfl
  | succ cycles ih =>
    rw [runFrom, runFrom]
    rcases m.step random (clock (a + made)) with ⟨_ | _ | _, after⟩
    · rfl
    · exact ih after (made + 1)
    · rfl

/-- How a run with a budget ends: with its budget used up, with the first step that waits, or with
the first one that fails. -/
inductive RunEnds (random : RandomBytes) (clock : Nat → Int) (m : Machine) (cycles : Nat) :
    Except Refusal Nat × Machine → Prop where
  | full (h : m.AdvancesFor random clock cycles) :
    RunEnds random clock m cycles (.ok cycles, m.stepped random clock cycles)
  | waits {n : Nat} (hn : n < cycles) (h : m.AdvancesFor random clock n)
    (hw : m.outcome random clock n = .ok .waitingForKey) :
    RunEnds random clock m cycles (.ok (n + 1), m.stepped random clock (n + 1))
  | fails {n : Nat} {e : Refusal} (hn : n < cycles) (h : m.AdvancesFor random clock n)
    (he : m.outcome random clock n = .error e) :
    RunEnds random clock m cycles (.error e, m.stepped random clock (n + 1))

/-- A run ends as its steps tell. -/
theorem run_of_runEnds {cycles : Nat} {result : Except Refusal Nat × Machine}
    (h : RunEnds random clock m cycles result) : m.run random clock cycles = result := by
  rw [run, Int.toNat_natCast]
  cases h with
  | full h => exact runFrom_of_advancesFor h 0
  | @waits n hn h hw =>
    obtain ⟨rest, rfl⟩ : ∃ rest, cycles = n + (rest + 1) := ⟨cycles - n - 1, by omega⟩
    rw [runFrom_of_advancesFor h, runFrom, stepped_succ_of_outcome hw]
  | @fails n e hn h he =>
    obtain ⟨rest, rfl⟩ : ∃ rest, cycles = n + (rest + 1) := ⟨cycles - n - 1, by omega⟩
    rw [runFrom_of_advancesFor h, runFrom, stepped_succ_of_outcome he]

/-- Every run ends in one of the three ways. -/
theorem exists_runEnds (random : RandomBytes) (clock : Nat → Int) (m : Machine) (cycles : Nat) :
    ∃ result, RunEnds random clock m cycles result := by
  induction cycles with
  | zero => exact ⟨_, .full fun i hi => absurd hi (Nat.not_lt_zero i)⟩
  | succ cycles ih =>
    obtain ⟨result, h⟩ := ih
    cases h with
    | waits hn h hw => exact ⟨_, .waits (Nat.lt_succ_of_lt hn) h hw⟩
    | fails hn h he => exact ⟨_, .fails (Nat.lt_succ_of_lt hn) h he⟩
    | full h =>
      cases hlast : m.outcome random clock cycles with
      | error e => exact ⟨_, .fails (Nat.lt_succ_self cycles) h hlast⟩
      | ok status =>
        cases status with
        | waitingForKey => exact ⟨_, .waits (Nat.lt_succ_self cycles) h hlast⟩
        | advanced =>
          refine ⟨_, .full fun i hi => ?_⟩
          rcases Nat.lt_succ_iff_lt_or_eq.1 hi with hlt | rfl
          · exact h i hlt
          · exact hlast

theorem runEnds_run (random : RandomBytes) (clock : Nat → Int) (m : Machine) (cycles : Nat) :
    RunEnds random clock m cycles (m.run random clock cycles) := by
  obtain ⟨result, h⟩ := exists_runEnds random clock m cycles
  rwa [run_of_runEnds h]

theorem run_toNat (m : Machine) (cycles : Int) :
    m.run random clock cycles.toNat = m.run random clock cycles := by
  rw [run, run, Int.toNat_natCast]

/-! ## Splitting -/

/-- A run whose first steps go on is a run of these and another one from there. -/
theorem run_add_of_advancesFor {a : Nat} (h : m.AdvancesFor random clock a) (b : Nat) :
    m.run random clock (a + b) =
      (((m.stepped random clock a).run random (fun n => clock (a + n)) b).1.map (a + ·),
        ((m.stepped random clock a).run random (fun n => clock (a + n)) b).2) := by
  have hbudget : (a + b : Int).toNat = a + b := by omega
  rw [run, hbudget, runFrom_of_advancesFor h, run, Int.toNat_natCast]
  exact runFrom_add _ a 0 b

/-- Where a run has stopped before its budget was used up or failed, a longer one stops too. -/
theorem run_add_of_not_advances {a : Nat} (hn : n < a) (h : m.AdvancesFor random clock n)
    (hstop : m.outcome random clock n ≠ .ok .advanced) (b : Nat) :
    m.run random clock (a + b) = m.run random clock a := by
  have hlonger : n < a + b := Nat.lt_add_right b hn
  cases hout : m.outcome random clock n with
  | error e =>
    have hends : RunEnds random clock m (a + b) _ := .fails hlonger h hout
    exact (run_of_runEnds hends).trans (run_of_runEnds (.fails hn h hout)).symm
  | ok status =>
    cases status with
    | advanced => exact absurd hout hstop
    | waitingForKey =>
      have hends : RunEnds random clock m (a + b) _ := .waits hlonger h hout
      exact (run_of_runEnds hends).trans (run_of_runEnds (.waits hn h hout)).symm

/-! ## Accounting -/

/-- What a run that completes has done: each of its steps has gone on and its budget is used up, or
all but the last have, which waits. -/
structure Completes (random : RandomBytes) (clock : Nat → Int) (m : Machine) (cycles : Int)
    (r : Nat) (after : Machine) : Prop where
  after_eq : after = m.stepped random clock r
  le : (r : Int) ≤ max cycles 0
  count : m.AdvancesFor random clock r ∧ (r : Int) = max cycles 0 ∧
      after.completed = m.completed + r ∨
    ∃ n, r = n + 1 ∧ m.AdvancesFor random clock n ∧
      m.outcome random clock n = .ok .waitingForKey ∧ after.completed = m.completed + n

theorem completes_of_run {cycles : Int} {r : Nat} {after : Machine}
    (h : m.run random clock cycles = (.ok r, after)) : Completes random clock m cycles r after := by
  have hends := runEnds_run random clock m cycles.toNat
  rw [run_toNat, h] at hends
  generalize hresult : ((.ok r, after) : Except Refusal Nat × Machine) = result at hends
  cases hends with
  | full hall =>
    cases hresult
    exact ⟨rfl, by omega, .inl ⟨hall, by omega, completed_stepped hall⟩⟩
  | @waits n hn hall hw =>
    cases hresult
    refine ⟨rfl, by omega, .inr ⟨n, rfl, hall, hw, ?_⟩⟩
    rw [stepped_of_waiting hw, ← completed_stepped hall]
    rfl
  | fails hn hall he => cases hresult

/-- What a run that fails has done: the steps before the one that fails, all of which have gone on,
and the tick of this one. -/
structure BreaksOff (random : RandomBytes) (clock : Nat → Int) (m : Machine) (cycles : Int)
    (e : Refusal) (after : Machine) (n : Nat) : Prop where
  lt : (n : Int) < cycles
  advances : m.AdvancesFor random clock n
  fails : m.outcome random clock n = .error e
  after_eq : after = (m.stepped random clock n).tick (clock n)
  count : after.completed = m.completed + n

theorem breaksOff_of_run {cycles : Int} {after : Machine}
    (h : m.run random clock cycles = (.error e, after)) :
    ∃ n, BreaksOff random clock m cycles e after n := by
  have hends := runEnds_run random clock m cycles.toNat
  rw [run_toNat, h] at hends
  generalize hresult : ((.error e, after) : Except Refusal Nat × Machine) = result at hends
  cases hends with
  | full hall => cases hresult
  | waits hn hall hw => cases hresult
  | @fails n e' hn hall he =>
    cases hresult
    refine ⟨n, by omega, hall, he, stepped_of_error he, ?_⟩
    rw [stepped_of_error he, ← completed_stepped hall]
    rfl

/-- A run that completes with no step waiting has used its budget up, and a longer one is this run
and another one from where it ends, at the clock readings that follow; a run that a waiting step or
a failure ends is as far as any longer one comes. And a run has completed as many instructions as
steps have gone on: it answers one more if the last one waits, which is the only reason to fall
short of the budget, and if it fails it has done all the steps before. -/
theorem run_splits_and_accounts (random : RandomBytes) (clock : Nat → Int) (m : Machine) :
    (∀ a b : Nat,
      (∀ r, (m.run random clock a).1 = .ok r →
        (∀ n < r, m.outcome random clock n ≠ .ok .waitingForKey) →
        r = a ∧
        m.run random clock (a + b) =
          (((m.run random clock a).2.run random (fun n => clock (a + n)) b).1.map (a + ·),
            ((m.run random clock a).2.run random (fun n => clock (a + n)) b).2)) ∧
      (∀ r, (m.run random clock a).1 = .ok r →
        (∃ n < r, m.outcome random clock n = .ok .waitingForKey) →
        m.run random clock (a + b) = m.run random clock a) ∧
      ∀ e, (m.run random clock a).1 = .error e →
        m.run random clock (a + b) = m.run random clock a) ∧
    (∀ cycles : Int, cycles ≤ 0 → m.run random clock cycles = (.ok 0, m)) ∧
    (∀ {cycles : Int} {r : Nat} {after : Machine}, m.run random clock cycles = (.ok r, after) →
      Completes random clock m cycles r after) ∧
    ∀ {cycles : Int} {e : Refusal} {after : Machine},
      m.run random clock cycles = (.error e, after) →
      ∃ n, BreaksOff random clock m cycles e after n := by
  refine ⟨?_, ?_, completes_of_run, breaksOff_of_run⟩
  · intro a b
    have hends := runEnds_run random clock m a
    generalize hrun : m.run random clock a = result at hends
    cases hends with
    | full h =>
      refine ⟨?_, ?_, ?_⟩
      · rintro r ⟨⟩ -
        exact ⟨rfl, run_add_of_advancesFor h b⟩
      · rintro r ⟨⟩ ⟨n, hn, hw⟩
        cases hw.symm.trans (h n hn)
      · rintro e ⟨⟩
    | @waits n hn h hw =>
      have hadd := run_add_of_not_advances hn h (by rw [hw]; nofun) b
      refine ⟨?_, fun _ _ _ => hadd.trans hrun, fun _ _ => hadd.trans hrun⟩
      rintro r ⟨⟩ hnone
      exact absurd hw (hnone n (Nat.lt_succ_self n))
    | @fails n e hn h he =>
      have hadd := run_add_of_not_advances hn h (by rw [he]; nofun) b
      refine ⟨?_, fun _ _ _ => hadd.trans hrun, fun _ _ => hadd.trans hrun⟩
      rintro r ⟨⟩
  · intro cycles hcycles
    rw [run, Int.toNat_of_nonpos hcycles, runFrom]

/-- A machine about to load a register and then to execute the word of two bytes. -/
def loadsThen (first second : UInt8) : Machine :=
  { new {} with memory := Memory.initial.overlay 0x200 #[0x60, 0x07, first, second] (by simp) }

theorem stepped_loadsThen {first second : UInt8} {i : Instruction}
    (hi : i.HasWord (.ofBytes first second)) :
    (loadsThen first second).AdvancesFor (fun _ => 0) (fun _ => 0) 1 ∧
    ∃ loaded, (loadsThen first second).stepped (fun _ => 0) (fun _ => 0) 1 = loaded ∧
      loaded.fetch = .ok i ∧ loaded.key = none ∧ loaded.stack.depth = 0 := by
  have hload : (Instruction.loadByte 0 7).HasWord (.ofBytes 0x60 0x07) := ⟨rfl, rfl, rfl⟩
  have hf : (loadsThen first second).fetch = .ok (.loadByte 0 7) :=
    fetch_of_overlay (p := 0x200) ⟨by simp, rfl⟩ rfl (by decide) rfl rfl hload
  have hs := @step_of_execute (fun _ => 0) _ _ _ _ hf 0 rfl
  refine ⟨?_, _, by rw [stepped_one, hs], ?_, rfl, rfl⟩
  · intro n hn
    obtain rfl := Nat.lt_one_iff.1 hn
    rw [outcome_zero, hs]
    rfl
  · exact fetch_of_overlay (p := 0x202) ⟨by simp, rfl⟩ rfl (by decide) rfl rfl hi

theorem run_split_before_wait :
    ∃ loaded loaded' : Machine,
      (loadsThen 0xF0 0x0A).run (fun _ => 0) (fun _ => 0) (1 : Nat) = (.ok 1, loaded) ∧
      (loadsThen 0xF0 0x0A).run (fun _ => 0) (fun _ => 0) ((1 : Nat) + (4 : Nat)) =
        (.ok 2, loaded.tick 0) ∧
      (loadsThen 0xF0 0x0A).run (fun _ => 0) (fun _ => 0) ((2 : Nat) + (3 : Nat)) =
        (loadsThen 0xF0 0x0A).run (fun _ => 0) (fun _ => 0) (2 : Nat) ∧
      Completes (fun _ => 0) (fun _ => 0) (loadsThen 0xF0 0x0A) (2 : Nat) 2 (loaded.tick 0) ∧
      (loadsThen 0x00 0xEE).run (fun _ => 0) (fun _ => 0) ((2 : Nat) + (3 : Nat)) =
        (loadsThen 0x00 0xEE).run (fun _ => 0) (fun _ => 0) (2 : Nat) ∧
      (∃ n, BreaksOff (fun _ => 0) (fun _ => 0) (loadsThen 0x00 0xEE) (2 : Nat)
        (.fault (.stackUnderflow loaded'.pc)) (loaded'.tick 0) n) ∧
      (loadsThen 0xF0 0x0A).run (fun _ => 0) (fun _ => 0) (-3) = (.ok 0, loadsThen 0xF0 0x0A) := by
  obtain ⟨hsplit, hzero, hcompletes, -⟩ :=
    run_splits_and_accounts (fun _ => 0) (fun _ => 0) (loadsThen 0xF0 0x0A)
  obtain ⟨hsplit', -, -, hbreaks⟩ :=
    run_splits_and_accounts (fun _ => 0) (fun _ => 0) (loadsThen 0x00 0xEE)
  -- Both first steps go on; then one machine waits and the other one fails.
  obtain ⟨hadv, loaded, hloaded, hf, hkey, -⟩ :=
    @stepped_loadsThen 0xF0 0x0A (.awaitKey 0) ⟨rfl, rfl, rfl⟩
  obtain ⟨hadv', loaded', hloaded', hf', -, hdepth⟩ := @stepped_loadsThen 0x00 0xEE .ret ⟨rfl, rfl⟩
  have hwait : loaded.step (fun _ => 0) 0 = (.ok .waitingForKey, loaded.tick 0) :=
    step_of_awaitKey hf hkey _ 0
  have hfail : loaded'.step (fun _ => 0) 0 =
      (.error (.fault (.stackUnderflow loaded'.pc)), loaded'.tick 0) := by
    obtain ⟨hp, hw⟩ := fetch_eq_ok_iff.1 hf'
    exact step_eq_error_iff.2 ⟨_, .underflow hp hw hdepth, rfl, rfl⟩
  have hout : (loadsThen 0xF0 0x0A).outcome (fun _ => 0) (fun _ => 0) 1 = .ok .waitingForKey := by
    rw [outcome, hloaded, hwait]
  have hout' : (loadsThen 0x00 0xEE).outcome (fun _ => 0) (fun _ => 0) 1 =
      .error (.fault (.stackUnderflow loaded'.pc)) := by
    rw [outcome, hloaded', hfail]
  have hone : (loadsThen 0xF0 0x0A).run (fun _ => 0) (fun _ => 0) (1 : Nat) = (.ok 1, loaded) := by
    rw [run_of_runEnds (.full hadv), hloaded]
  have htwo : (loadsThen 0xF0 0x0A).run (fun _ => 0) (fun _ => 0) (2 : Nat) =
      (.ok 2, loaded.tick 0) := by
    rw [run_of_runEnds (.waits Nat.one_lt_two hadv hout), stepped_of_waiting hout, hloaded]
  have htwo' : (loadsThen 0x00 0xEE).run (fun _ => 0) (fun _ => 0) (2 : Nat) =
      (.error (.fault (.stackUnderflow loaded'.pc)), loaded'.tick 0) := by
    rw [run_of_runEnds (.fails Nat.one_lt_two hadv' hout'), stepped_of_error hout', hloaded']
  have hfour : loaded.run (fun _ => 0) (fun _ => 0) (4 : Nat) = (.ok 1, loaded.tick 0) := by
    simp only [run, Int.toNat_natCast, runFrom, hwait]
  have hnone : ∀ n < 1, (loadsThen 0xF0 0x0A).outcome (fun _ => 0) (fun _ => 0) n ≠
      .ok .waitingForKey := by
    intro n hn hw
    cases (hadv n hn).symm.trans hw
  have hfive := ((hsplit 1 4).1 1 (congrArg Prod.fst hone) hnone).2
  rw [hone, hfour] at hfive
  refine ⟨loaded, loaded', hone, hfive, ?_, hcompletes htwo, ?_, hbreaks htwo', hzero _ (by decide)⟩
  · exact (hsplit 2 3).2.1 2 (congrArg Prod.fst htwo) ⟨1, Nat.one_lt_two, hout⟩
  · exact (hsplit' 2 3).2.2 _ (congrArg Prod.fst htwo')

end ChipVm.Machine
