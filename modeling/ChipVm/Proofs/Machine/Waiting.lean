/-
Waiting for a key. A step ends so exactly where it finds no key to take, and it then changes nothing
but the timers, however often it is repeated. Once a key is there, the instruction is carried out as
if the machine had not waited at all.
-/
import ChipVm.Proofs.Machine.Clock
import ChipVm.Proofs.Machine.Latch

namespace ChipVm

namespace Machine

variable {random : RandomBytes} {m k : Machine} {key : Key}

/-! ## Without a key -/

/-- Whether a machine is about to take a key and there is none. -/
def WaitsForKey (m : Machine) : Prop :=
  m.pc ≤ 4094 ∧ m.word.family = 0xF ∧ m.word.low = 0x0A ∧ m.key = none

theorem WaitsForKey.fetch (h : m.WaitsForKey) : m.fetch = .ok (.awaitKey m.word.x) := by
  obtain ⟨hp, hfamily, hlow, -⟩ := h
  exact fetch_eq_ok_iff.2 ⟨hp, hfamily, hlow, rfl⟩

theorem WaitsForKey.of_sameButTimers (h : m.WaitsForKey) (hmk : SameButTimers m k) :
    k.WaitsForKey := by
  obtain ⟨timers, rfl⟩ := hmk
  exact h

theorem WaitsForKey.step (h : m.WaitsForKey) (random : RandomBytes) (now : Int) :
    m.step random now = (.ok .waitingForKey, m.tick now) :=
  step_of_awaitKey h.fetch h.2.2.2 random now

theorem step_waiting_iff (random : RandomBytes) (m : Machine) (now : Int) :
    (m.step random now).1 = .ok .waitingForKey ↔ m.WaitsForKey := by
  constructor
  · intro h
    obtain ⟨x, hf, hkey, -⟩ := step_waiting (Prod.ext h rfl)
    obtain ⟨hp, hfamily, hlow, -⟩ := fetch_eq_ok_iff.1 hf
    exact ⟨hp, hfamily, hlow, hkey⟩
  · intro h
    rw [h.step]

/-- A machine that waits goes on waiting, whenever it is asked and however often. -/
theorem WaitsForKey.polls (h : m.WaitsForKey) (random : RandomBytes) (polls : List Int) :
    m.answers random (polls.map .step) =
        List.replicate polls.length (.ok (.status .waitingForKey)) ∧
      SameButTimers m (m.performAll random (polls.map .step)) := by
  induction polls generalizing m with
  | nil => exact ⟨rfl, .refl m⟩
  | cons now polls ih =>
    have htick : SameButTimers m (m.tick now) := ⟨_, rfl⟩
    obtain ⟨hanswers, timers, hfinal⟩ := ih (h.of_sameButTimers htick)
    have hanswer : (m.perform random (.step now)).1 = .ok (.status .waitingForKey) := by
      rw [perform_step_fst, h.step]
      rfl
    have hafter : (m.perform random (.step now)).2 = m.tick now := by
      rw [perform_step_snd, h.step]
    rw [List.map_cons, answers, performAll, hanswer, hafter, hanswers, hfinal]
    exact ⟨rfl, timers, rfl⟩

/-! ## With a key -/

/-- What a machine has done that was waiting and has got a key: the key is in the register that the
instruction names, and none is pending any more; the instruction is completed, once. -/
structure TookKey (key : Key) (m after : Machine) : Prop where
  register : (after.registers.get m.word.x).toNat = key.digit.val
  key : after.key = none
  pc : after.pc = m.pc + 2
  completed : after.completed = m.completed + 1

/-- The machine after a key has been handed over and taken, at a clock reading. -/
def afterKey (m : Machine) (key : Key) (now : Int) : Machine :=
  { m.tick now with
    registers := m.registers.set m.word.x (UInt8.ofNat key.digit.val)
    key := none
    pc := m.pc + 2
    completed := m.completed + 1 }

theorem SameButTimers.tookKey (h : SameButTimers m k) (key : Key) (now : Int) :
    TookKey key m (k.afterKey key now) := by
  obtain ⟨timers, rfl⟩ := h
  exact ⟨m.registers.toNat_get_set_digit m.word.x key, rfl, rfl, rfl⟩

theorem SameButTimers.afterKey (h : SameButTimers m k) (key : Key) (now now' : Int) :
    SameButTimers (m.afterKey key now) (k.afterKey key now') := by
  obtain ⟨timers, rfl⟩ := h
  exact ⟨_, rfl⟩

theorem WaitsForKey.step_setKey (h : m.WaitsForKey) (random : RandomBytes) (key : Key)
    (now : Int) :
    (m.setKey (some key)).step random now = (.ok .advanced, m.afterKey key now) := by
  have hf : (m.setKey (some key)).fetch = .ok (.awaitKey m.word.x) := h.fetch
  exact step_of_awaitKey_some hf rfl random now

theorem WaitsForKey.hand (h : m.WaitsForKey) (random : RandomBytes) {value : Json}
    (hv : Key.ofJson value = .ok (some key)) (now : Int) :
    m.answers random [.setKey value, .step now] = [.ok .done, .ok (.status .advanced)] ∧
      m.performAll random [.setKey value, .step now] = m.afterKey key now := by
  simp only [answers, performAll, perform_setKey_ok m hv, perform_step_fst, perform_step_snd,
    h.step_setKey, and_true]
  rfl

/-- A step waits exactly where the machine is about to take a key and there is none. Any number of
steps does nothing there but tick the timers, and all of them say that they wait. A key handed over
then is taken by the next step, and it makes no difference, timers aside, how many steps have
waited for it. -/
theorem waiting_is_a_stutter (random : RandomBytes) :
    (∀ (m : Machine) (now : Int), (m.step random now).1 = .ok .waitingForKey ↔ m.WaitsForKey) ∧
    ∀ {m : Machine}, m.WaitsForKey → ∀ polls : List Int,
      (m.answers random (polls.map .step) =
          List.replicate polls.length (.ok (.status .waitingForKey)) ∧
        SameButTimers m (m.performAll random (polls.map .step))) ∧
      ∀ {value : Json} {key : Key}, Key.ofJson value = .ok (some key) → ∀ now now' : Int,
        m.answers random (polls.map .step ++ [.setKey value, .step now]) =
          List.replicate polls.length (.ok (.status .waitingForKey)) ++
            [.ok .done, .ok (.status .advanced)] ∧
        TookKey key m (m.performAll random (polls.map .step ++ [.setKey value, .step now])) ∧
        SameButTimers (m.performAll random [.setKey value, .step now'])
          (m.performAll random (polls.map .step ++ [.setKey value, .step now])) := by
  refine ⟨step_waiting_iff random, fun {m} h polls => ⟨h.polls random polls, ?_⟩⟩
  intro value key hv now now'
  obtain ⟨hanswers, hsame⟩ := h.polls random polls
  have hwaits := h.of_sameButTimers hsame
  obtain ⟨hlast, hafter⟩ := hwaits.hand random hv now
  rw [answers_append, performAll_append, hanswers, hlast, hafter, (h.hand random hv now').2]
  exact ⟨rfl, hsame.tookKey key now, hsame.afterKey key now' now⟩

/-- A machine that waits for a key to put in `V3` while a timer counts. -/
def waitsWhileCounting : Machine :=
  { new {} with
    memory := Memory.initial.overlay 0x200 #[0xF3, 0x0A] (by decide)
    timers := ⟨9, 0, some 0⟩ }

theorem key_taken_after_two_polls :
    waitsWhileCounting.WaitsForKey ∧ Key.ofJson (.int 7) = .ok (some ⟨7⟩) ∧
    waitsWhileCounting.answers (fun _ => 0)
        [.step 20000000, .step 40000000, .setKey (.int 7), .step 0] =
      [.ok (.status .waitingForKey), .ok (.status .waitingForKey), .ok .done,
        .ok (.status .advanced)] ∧
    TookKey ⟨7⟩ waitsWhileCounting (waitsWhileCounting.performAll (fun _ => 0)
      [.step 20000000, .step 40000000, .setKey (.int 7), .step 0]) ∧
    SameButTimers (waitsWhileCounting.performAll (fun _ => 0) [.setKey (.int 7), .step 5])
      (waitsWhileCounting.performAll (fun _ => 0)
        [.step 20000000, .step 40000000, .setKey (.int 7), .step 0]) := by
  have hf : waitsWhileCounting.fetch = .ok (.awaitKey 3) :=
    fetch_of_overlay (p := 0x200) ⟨by decide, rfl⟩ rfl (by decide) rfl rfl ⟨rfl, rfl, rfl⟩
  obtain ⟨hp, hfamily, hlow, -⟩ := fetch_eq_ok_iff.1 hf
  have hwaits : waitsWhileCounting.WaitsForKey := ⟨hp, hfamily, hlow, rfl⟩
  have hv : Key.ofJson (.int 7) = .ok (some ⟨7⟩) := rfl
  obtain ⟨-, htaken⟩ := (waiting_is_a_stutter fun _ => 0).2 hwaits [20000000, 40000000]
  exact ⟨hwaits, hv, htaken hv 0 5⟩

end Machine

end ChipVm
