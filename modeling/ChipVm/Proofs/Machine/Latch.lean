/-
The pending key. It is the one that the host has handed over last, as long as no instruction has
taken it and there has been no reset; so each key goes to one instruction at most. With all other
steps it makes no difference whether a key is handed over before or after.
-/
import ChipVm.Proofs.Machine.Independence
import ChipVm.Proofs.Machine.Simulation
import Mathlib.Data.List.Induction

namespace ChipVm

/-! ## Histories of the pending key -/

namespace Moment

/-- What a moment hands over, unless it is refused: a key, or none in place of the pending one. -/
def handed? (x : Moment) : Option (Option Key) :=
  match x.command with
  | .setKey value => (Key.ofJson value).toOption
  | _ => none

/-- Whether a moment executes an instruction that takes the pending key. -/
def TakesKey (random : RandomBytes) (x : Moment) : Prop :=
  ∃ i, x.executed? random = some i ∧ i.TakesKey

/-- Whether a moment puts an end to what has been pending: it replaces, takes or resets it. -/
def EndsPending (random : RandomBytes) (x : Moment) : Prop :=
  x.handed?.isSome ∨ x.command = .reset ∨ x.TakesKey random

/-- Whether a key is pending after a history: it has been handed over, and nothing since then has
put an end to that. -/
def Pending (random : RandomBytes) (past : List Moment) (key : Key) : Prop :=
  ∃ before x after, past = before ++ x :: after ∧ x.handed? = some (some key) ∧
    ∀ y ∈ after, ¬y.EndsPending random

variable {random : RandomBytes} {x y : Moment} {key : Key} {past between : List Moment}

theorem not_pending_nil : ¬Pending random [] key := by
  rintro ⟨before, x, after, h, -⟩
  cases before <;> cases h

theorem pending_concat :
    Pending random (past ++ [x]) key ↔
      x.handed? = some (some key) ∨ ¬x.EndsPending random ∧ Pending random past key := by
  constructor
  · rintro ⟨before, y, after, h, hy, hafter⟩
    rcases List.eq_nil_or_concat after with rfl | ⟨after, z, rfl⟩
    · obtain ⟨-, hlast⟩ := List.append_inj' h rfl
      cases hlast
      exact .inl hy
    · rw [List.concat_eq_append, ← List.cons_append, ← List.append_assoc] at h
      obtain ⟨hpast, hlast⟩ := List.append_inj' h rfl
      cases hlast
      refine .inr ⟨hafter x (by simp), before, y, after, hpast, hy, ?_⟩
      intro z hz
      exact hafter z (by simp [hz])
  · rintro (hx | ⟨hx, before, y, after, rfl, hy, hafter⟩)
    · exact ⟨past, x, [], rfl, hx, by simp⟩
    · refine ⟨before, y, after ++ [x], by simp, hy, ?_⟩
      intro z hz
      rcases List.mem_append.1 hz with hz | hz
      · exact hafter z hz
      · rwa [List.mem_singleton.1 hz]

theorem handed?_of_takesKey (h : x.TakesKey random) : x.handed? = none := by
  obtain ⟨i, hi, -⟩ := h
  obtain ⟨now, status, after, hc, -, -⟩ := executed?_eq_some_iff.1 hi
  rw [handed?, hc]

theorem endsPending_of_edits {m : Machine} {c : Command} (hc : c.Edits) :
    EndsPending random ⟨m, c⟩ ↔ (handed? ⟨m, c⟩).isSome := by
  constructor
  · rintro (h | rfl | ⟨i, hi, -⟩)
    · exact h
    · cases hc
    · rw [executed?_of_edits m hc] at hi
      cases hi
  · exact .inl

/-- What is pending after an instruction has taken the key has been handed over since. -/
theorem pending_of_takesKey (hy : y.TakesKey random) :
    Pending random (past ++ y :: between) key ↔ Pending random between key := by
  induction between using List.reverseRecOn with
  | nil =>
    rw [pending_concat, handed?_of_takesKey hy]
    have hends : y.EndsPending random := .inr (.inr hy)
    simp [hends, not_pending_nil]
  | append_singleton between x ih =>
    rw [← List.cons_append, ← List.append_assoc, pending_concat, pending_concat, ih]

end Moment

namespace Machine

open Moment

variable {random : RandomBytes} {m after : Machine} {i : Instruction} {flow : Flow} {now : Int}

/-! ## One step -/

theorem key_of_execute (h : m.execute random i = (.ok flow, after)) (hi : i.TakesKey) :
    after.key = none := by
  cases i with
  | skipIfKey x | skipUnlessKey x =>
    cases h
    rfl
  | awaitKey x =>
    obtain ⟨hkey, -, rfl⟩ | ⟨key, -, -, rfl⟩ := awaitKey_ok h
    · exact hkey
    · rfl
  | _ => cases hi

theorem key_step_ok {status : Status} (hf : m.fetch = .ok i)
    (h : m.step random now = (.ok status, after)) :
    (i.TakesKey → after.key = none) ∧ (¬i.TakesKey → after.key = m.key) := by
  obtain ⟨j, flow, k, pc, completed, hf', hx, rfl⟩ := step_touches h
  cases hf.symm.trans hf'
  have htaken := key_of_execute hx
  have hkept := (footprint_of_execute hx).key
  exact ⟨htaken, hkept⟩

theorem key_step_error {e : Refusal} (h : m.step random now = (.error e, after)) :
    after.key = m.key := by
  obtain ⟨f, -, -, rfl⟩ := step_eq_error_iff.1 h
  rfl

/-- A key is pending after a moment if the moment hands it over, or if it has been pending and the
moment does not put an end to that. -/
theorem key_perform {c : Command} (hc : c.Single) (key : Key) :
    (m.perform random c).2.key = some key ↔
      handed? ⟨m, c⟩ = some (some key) ∨ ¬EndsPending random ⟨m, c⟩ ∧ m.key = some key := by
  cases c with
  | step now =>
    rw [perform_step_snd]
    rcases hs : m.step random now with ⟨e | status, after⟩
    · have hnone := executed?_step_error hs
      simp [handed?, EndsPending, Moment.TakesKey, hnone, key_step_error hs]
    · obtain ⟨i, flow, k, hf, -, -⟩ := step_ok hs
      obtain ⟨htaken, hkept⟩ := key_step_ok hf hs
      have hsome := executed?_step_ok hf hs
      by_cases hi : i.TakesKey
      · simp [handed?, EndsPending, Moment.TakesKey, hsome, hi, htaken hi]
      · simp [handed?, EndsPending, Moment.TakesKey, hsome, hi, hkept hi]
  | run clock cycles => cases hc
  | reset => simp [perform, reset, handed?, EndsPending]
  | setKey value =>
    rw [perform, endsPending_of_edits (by trivial)]
    cases hv : Key.ofJson value <;> simp [handed?, setKey, hv, Except.toOption]
  | load _ | read _ | memory _ | registers _ | timers _ | screen _ =>
    rw [(edited_of_edits random m (by trivial)).key (by simp),
      endsPending_of_edits (by trivial)]
    simp [handed?]

/-! ## Histories -/

variable {cs : List Command} {past rest : List Moment} {x : Moment}

theorem pending_perform {k : Machine} {c : Command} (hc : c.Single)
    (h : ∀ key, k.key = some key ↔ Pending random past key) (key : Key) :
    (k.perform random c).2.key = some key ↔ Pending random (past ++ [⟨k, c⟩]) key := by
  rw [key_perform hc, pending_concat, h]

theorem pending_start (h : m.key = none) (key : Key) :
    m.key = some key ↔ Pending random [] key := by
  simp [h, not_pending_nil]

theorem key_performAll (h : m.key = none) (cs : List Command) (key : Key) :
    (m.performAll random cs).key = some key ↔ Pending random (m.moments random cs) key :=
  moments_induction (motive := fun past k => ∀ key, k.key = some key ↔ Pending random past key)
    (fun _ _ _ => pending_perform) (pending_start h) cs key

theorem key_at (h : m.key = none) (hx : m.moments random cs = past ++ x :: rest) (key : Key) :
    x.machine.key = some key ↔ Pending random past key :=
  moments_induction_at (motive := fun past k => ∀ key, k.key = some key ↔ Pending random past key)
    (fun _ _ _ => pending_perform) (pending_start h) hx key

/-! ## Taking the key -/

/-- What an instruction that takes the pending key makes of it: a skip compares it with a register,
the last one stores it in a register, or waits as long as there is none. -/
def UsesKey (m : Machine) (now : Int) (status : Status) (after : Machine) : Instruction → Prop
  | .skipIfKey x =>
    status = .advanced ∧ after.pc =
      if m.key.map (·.digit.val) = some (m.registers.get x).toNat then m.pc + 4 else m.pc + 2
  | .skipUnlessKey x =>
    status = .advanced ∧ after.pc =
      if m.key.map (·.digit.val) = some (m.registers.get x).toNat then m.pc + 2 else m.pc + 4
  | .awaitKey x =>
    m.key = none ∧ status = .waitingForKey ∧ after = m.tick now ∨
      ∃ key, m.key = some key ∧ status = .advanced ∧ after.pc = m.pc + 2 ∧
        (after.registers.get x).toNat = key.digit.val
  | _ => False

/-- An instruction that takes the key is not refused, and afterwards none is pending. -/
theorem step_takesKey (random : RandomBytes) (now : Int) (hf : m.fetch = .ok i) (hi : i.TakesKey) :
    ∃ status after, m.step random now = (.ok status, after) ∧ after.key = none ∧
      m.UsesKey now status after i := by
  cases i with
  | skipIfKey x =>
    refine ⟨_, _, step_of_execute hf rfl, ?_⟩
    rw [commit_skipIf]
    refine ⟨rfl, rfl, ?_⟩
    simp only [← keyMatches_iff]
    rfl
  | skipUnlessKey x =>
    refine ⟨_, _, step_of_execute hf rfl, ?_⟩
    rw [commit_skipIf]
    refine ⟨rfl, rfl, ?_⟩
    simp only [← keyMatches_iff]
    have hmatches : (m.tick now).keyMatches x = m.keyMatches x := rfl
    rw [hmatches]
    cases m.keyMatches x <;> rfl
  | awaitKey x =>
    cases hkey : m.key with
    | none => exact ⟨_, _, step_of_awaitKey hf hkey random now, hkey, .inl ⟨hkey, rfl, rfl⟩⟩
    | some key =>
      exact ⟨_, _, step_of_awaitKey_some hf hkey random now, rfl,
        .inr ⟨key, hkey, rfl, rfl, m.registers.toNat_get_set_digit x key⟩⟩
  | _ => cases hi

/-! ## Handing over before or after -/

/-- Whether the order of two commands makes no difference, neither to their answers nor to the
machine they leave behind. -/
def Commute (random : RandomBytes) (m : Machine) (c d : Command) : Prop :=
  ((m.perform random c).2.perform random d).1 = (m.perform random d).1 ∧
  ((m.perform random d).2.perform random c).1 = (m.perform random c).1 ∧
  ((m.perform random c).2.perform random d).2 = ((m.perform random d).2.perform random c).2

theorem execute_setKey (random : RandomBytes) (m : Machine) (key : Option Key) (hi : ¬i.TakesKey) :
    (m.setKey key).execute random i =
      ((m.execute random i).1, (m.execute random i).2.setKey key) := by
  apply execute_changed (f := { key := fun _ => key })
  case hconfig => exact fun _ _ _ => Instruction.not_tellsApart rfl rfl
  case htimers => exact fun _ => rfl
  case hstack => exact fun _ => rfl
  case hkey => exact fun h => absurd h hi
  case hdrawn => exact fun _ => ⟨rfl, rfl⟩

/-- Another pending key is still there after a step whose instruction does not take it. -/
theorem stepSimulation_setKey (random : RandomBytes) (key : Option Key) :
    StepSimulation random random Eq (fun x => ∀ i, x.machine.fetch = .ok i → ¬i.TakesKey)
      (fun m k => k = m.setKey key) where
  fetch := by
    rintro m _ rfl
    rfl
  pc := by
    rintro m _ rfl
    rfl
  goOn := by
    rintro m _ pc rfl
    rfl
  tick := by
    rintro m _ now _ rfl rfl
    rfl
  execute := by
    rintro m _ now _ i rfl rfl hallowed hf
    have hx : ((m.setKey key).tick now).execute random i = _ :=
      execute_setKey random (m.tick now) key (hallowed i hf)
    rw [hx]
    exact ⟨rfl, rfl⟩

theorem step_setKey (h : ∀ i, m.fetch = .ok i → ¬i.TakesKey) (key : Option Key) :
    (m.setKey key).step random now =
      ((m.step random now).1, (m.step random now).2.setKey key) := by
  obtain ⟨hresult, hafter⟩ := (stepSimulation_setKey random key).step rfl rfl h
  exact Prod.ext hresult.symm hafter

theorem perform_setKey_error (m : Machine) {value : Json} {e : NotAKey}
    (hv : Key.ofJson value = .error e) :
    m.perform random (.setKey value) = (.error (.key e), m) := by
  simp only [perform, hv]

theorem perform_setKey_ok (m : Machine) {value : Json} {key : Option Key}
    (hv : Key.ofJson value = .ok key) :
    m.perform random (.setKey value) = (.ok .done, m.setKey key) := by
  simp only [perform, hv]

theorem commute_setKey_step (h : ∀ i, m.fetch = .ok i → ¬i.TakesKey) (value : Json) :
    m.Commute random (.setKey value) (.step now) := by
  cases hv : Key.ofJson value with
  | error e => simp only [Commute, perform_setKey_error _ hv, and_self]
  | ok key =>
    simp only [Commute, perform_setKey_ok _ hv, perform_step_fst, perform_step_snd, step_setKey h,
      and_self]

/-- The pending key at any time, in the middle of a run too, is the one handed over last, unless an
instruction has taken it since then or there has been a reset; so what is pending after an
instruction that takes the key has been handed over after it. Such an instruction uses the pending
key and leaves none, and what is refused leaves the key alone. With a step whose instruction does
not take the key it makes no difference whether a key is handed over before or after. -/
theorem key_is_delivered_once (random : RandomBytes) :
    (∀ {choice : Option Config.Choice} {program : Option ProgramSource} {m : Machine},
      boot choice program = .ok m → ∀ cs : List Command,
        (∀ key, (m.performAll random cs).key = some key ↔
          Pending random (m.moments random cs) key) ∧
        ∀ {past rest : List Moment} {x : Moment}, m.moments random cs = past ++ x :: rest →
          (∀ key, x.machine.key = some key ↔ Pending random past key) ∧
          ∀ {before between : List Moment} {y : Moment}, past = before ++ y :: between →
            y.TakesKey random → ∀ key, x.machine.key = some key ↔ Pending random between key) ∧
    (∀ {m : Machine} {i : Instruction} (now : Int), m.fetch = .ok i → i.TakesKey →
      ∃ status after, m.step random now = (.ok status, after) ∧ after.key = none ∧
        m.UsesKey now status after i) ∧
    (∀ {m after : Machine} {now : Int} {e : Refusal}, m.step random now = (.error e, after) →
      after.key = m.key) ∧
    (∀ (m : Machine) {value : Json} {e : NotAKey}, Key.ofJson value = .error e →
      m.perform random (.setKey value) = (.error (.key e), m)) ∧
    ∀ {m : Machine}, (∀ i, m.fetch = .ok i → ¬i.TakesKey) → ∀ (value : Json) (now : Int),
      m.Commute random (.setKey value) (.step now) := by
  refine ⟨?_, fun now => step_takesKey random now, key_step_error, perform_setKey_error,
    fun h value now => commute_setKey_step h value⟩
  intro choice program m hboot cs
  have hnone : m.key = none := by
    obtain ⟨⟨memory, -, hm⟩, -⟩ := boot_ok hboot
    rw [hm]
    rfl
  refine ⟨key_performAll hnone cs, fun {past rest x} hx => ⟨key_at hnone hx, ?_⟩⟩
  rintro before between y rfl hy key
  rw [key_at hnone hx, pending_of_takesKey hy]

/-- A machine about to skip if the pending key is in a register, and then to return to nowhere. -/
def pollsThenReturns : Machine :=
  { new {} with
    memory := Memory.initial.overlay 0x200 #[0xE0, 0x9E, 0x00, 0xEE] (by decide) }

theorem polled_key_is_gone :
    ∃ taken failed : Machine,
      boot none (some (.image [0xE0, 0x9E, 0x00, 0xEE])) = .ok pollsThenReturns ∧
      (pollsThenReturns.setKey (some ⟨5⟩)).step (fun _ => 0) 7 = (.ok .advanced, taken) ∧
      (pollsThenReturns.setKey (some ⟨5⟩)).UsesKey 7 .advanced taken (.skipIfKey 0) ∧
      (∀ key, (taken.setKey (some ⟨6⟩)).key = some key ↔
        Pending (fun _ => 0) [⟨taken, .setKey (.int 6)⟩] key) ∧
      (taken.setKey (some ⟨6⟩)).step (fun _ => 0) 8 =
        (.error (.fault (.stackUnderflow taken.pc)), failed) ∧
      failed.key = some ⟨6⟩ ∧
      failed.perform (fun _ => 0) (.setKey (.int 16)) = (.error (.key ⟨.int 16⟩), failed) ∧
      (taken.setKey (some ⟨6⟩)).Commute (fun _ => 0) (.setKey (.int 5)) (.step 8) := by
  obtain ⟨hpending, htakes, hfails, hrefused, hcommute⟩ := key_is_delivered_once fun _ => 0
  have hboot : boot none (some (.image [0xE0, 0x9E, 0x00, 0xEE])) = .ok pollsThenReturns := rfl
  have hf : (pollsThenReturns.setKey (some ⟨5⟩)).fetch = .ok (.skipIfKey 0) :=
    fetch_of_overlay (p := 0x200) ⟨by decide, rfl⟩ rfl (by decide) rfl rfl ⟨rfl, rfl, rfl⟩
  obtain ⟨taken, hs, hmemory, hpc, hdepth⟩ : ∃ taken,
      (pollsThenReturns.setKey (some ⟨5⟩)).step (fun _ => 0) 7 = (.ok .advanced, taken) ∧
      taken.memory = pollsThenReturns.memory ∧ taken.pc = 0x202 ∧ taken.stack.depth = 0 :=
    ⟨_, step_of_execute hf rfl, rfl, rfl, rfl⟩
  obtain ⟨status, after, hs', -, huses⟩ := htakes 7 hf trivial
  cases hs.symm.trans hs'
  -- The key is gone; another one meets an instruction that does not take it, and fails.
  have hnext : (taken.setKey (some ⟨6⟩)).fetch = .ok .ret :=
    fetch_of_overlay (p := 0x202) ⟨by decide, hmemory⟩ hpc (by decide) rfl rfl ⟨rfl, rfl⟩
  have hreturns : ∀ i, (taken.setKey (some ⟨6⟩)).fetch = .ok i → ¬i.TakesKey := by
    intro i hi
    cases hnext.symm.trans hi
    exact id
  have hfailed : (taken.setKey (some ⟨6⟩)).step (fun _ => 0) 8 =
      (.error (.fault (.stackUnderflow taken.pc)), (taken.setKey (some ⟨6⟩)).tick 8) := by
    obtain ⟨hp, hw⟩ := fetch_eq_ok_iff.1 hnext
    exact step_eq_error_iff.2 ⟨_, .underflow hp hw hdepth, rfl, rfl⟩
  have hfive : (pollsThenReturns.perform (fun _ => 0) (.setKey (.int 5))).2 =
      pollsThenReturns.setKey (some ⟨5⟩) := rfl
  have hsix : (taken.perform (fun _ => 0) (.setKey (.int 6))).2 = taken.setKey (some ⟨6⟩) := rfl
  have hmoments : pollsThenReturns.moments (fun _ => 0)
        [.setKey (.int 5), .step 7, .setKey (.int 6), .step 8] =
      [⟨pollsThenReturns, .setKey (.int 5)⟩, ⟨pollsThenReturns.setKey (some ⟨5⟩), .step 7⟩,
        ⟨taken, .setKey (.int 6)⟩] ++ ⟨taken.setKey (some ⟨6⟩), .step 8⟩ :: [] := by
    simp only [moments, momentsOf, perform_step_snd, hfive, hs, hsix, List.cons_append,
      List.nil_append]
  have hpolls : TakesKey (fun _ => 0) ⟨pollsThenReturns.setKey (some ⟨5⟩), .step 7⟩ :=
    ⟨_, executed?_step_ok hf hs, trivial⟩
  obtain ⟨-, hlater⟩ := (hpending hboot _).2 hmoments
  exact ⟨taken, _, hboot, hs, huses, @hlater [_] _ _ rfl hpolls, hfailed, hfails hfailed,
    hrefused _ rfl, hcommute hreturns _ 8⟩

end Machine

end ChipVm
