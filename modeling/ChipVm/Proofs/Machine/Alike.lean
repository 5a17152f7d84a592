/-
Machines that no command can tell apart: they differ in the rate at which a host is to step them,
in the slots of the stack above the depth and in how many random bytes they have taken, while the
bytes still to come are the same. Whatever is done to both is answered alike and leaves them alike.
-/
import ChipVm.Proofs.Machine.Independence
import ChipVm.Proofs.Machine.Simulation

namespace ChipVm

namespace Stack

theorem pop?_of_live_eq {s t : Stack} (h : s.live = t.live) :
    (s.pop? = none ∧ t.pop? = none) ∨
      ∃ address s' t', s.pop? = some (address, s') ∧ t.pop? = some (address, t') ∧
        s'.live = t'.live := by
  have hdepth : s.depth = t.depth := by rw [← length_live, h, length_live]
  cases hs : s.pop? with
  | none =>
    rw [pop?_eq_none_iff, hdepth] at hs
    exact .inl ⟨rfl, pop?_eq_none_iff.2 hs⟩
  | some popped =>
    obtain ⟨address, s'⟩ := popped
    cases ht : t.pop? with
    | none =>
      rw [pop?_eq_none_iff, ← hdepth, ← pop?_eq_none_iff, hs] at ht
      cases ht
    | some other =>
      obtain ⟨address', t'⟩ := other
      have happend : s'.live ++ [address] = t'.live ++ [address'] := by
        rw [← live_pop? hs, ← live_pop? ht, h]
      obtain ⟨hrest, haddress⟩ := List.append_inj' happend rfl
      obtain rfl := List.singleton_inj.1 haddress
      exact .inr ⟨address, s', t', rfl, rfl, hrest⟩

theorem push?_of_live_eq {s t : Stack} (h : s.live = t.live) (address : Nat) :
    (s.push? address = none ∧ t.push? address = none) ∨
      ∃ s' t', s.push? address = some s' ∧ t.push? address = some t' ∧ s'.live = t'.live := by
  have hdepth : s.depth = t.depth := by rw [← length_live, h, length_live]
  cases hs : s.push? address with
  | none =>
    rw [push?_eq_none_iff, hdepth] at hs
    exact .inl ⟨rfl, push?_eq_none_iff.2 hs⟩
  | some s' =>
    cases ht : t.push? address with
    | none =>
      rw [push?_eq_none_iff, ← hdepth, ← @push?_eq_none_iff s address, hs] at ht
      cases ht
    | some t' => exact .inr ⟨s', t', rfl, rfl, by rw [live_push? hs, live_push? ht, h]⟩

end Stack

namespace Machine

variable {random random' : RandomBytes} {m k : Machine}

/-! ## Twins -/

/-- The machine with another rate, another stack and another count of random bytes. -/
def twin (m : Machine) (rate : Rate) (stack : Stack) (drawn : Nat) : Machine :=
  { m with config := { m.config with rate := rate }, stack := stack, drawn := drawn }

/-- The change that makes a machine its twin. -/
def twinChange (rate : Rate) (stack : Stack) (drawn : Nat) : Change where
  config c := { c with rate := rate }
  stack _ := stack
  drawn _ := drawn

/-- Whether no command can tell two machines apart, the one with the bytes of `random` before it
and the other with those of `random'`. -/
structure Alike (random random' : RandomBytes) (m k : Machine) : Prop where
  twin : ∃ rate stack drawn, k = m.twin rate stack drawn
  live : m.stack.live = k.stack.live
  bytes : ∀ n, random (m.drawn + n) = random' (k.drawn + n)

namespace Alike

/-- What leaves the stack and the count alone leaves twins alike. -/
theorem after_twin {rate : Rate} {stack : Stack} {drawn : Nat} {after : Machine}
    (h : Alike random random' m (m.twin rate stack drawn)) (hstack : after.stack = m.stack)
    (hdrawn : after.drawn = m.drawn) :
    Alike random random' after (after.twin rate stack drawn) := by
  refine ⟨⟨rate, stack, drawn, rfl⟩, ?_, fun n => ?_⟩
  · rw [hstack]
    exact h.live
  · rw [hdrawn]
    exact h.bytes n

/-! ## Steps -/

theorem call (h : Alike random random' m k) (target : Nat) :
    (m.call target).1 = (k.call target).1 ∧
      Alike random random' (m.call target).2 (k.call target).2 := by
  obtain ⟨⟨rate, stack, drawn, rfl⟩, hlive, hbytes⟩ := h
  have hpc : (m.twin rate stack drawn).pc = m.pc := rfl
  unfold Machine.call
  rw [hpc]
  obtain ⟨hm, hk⟩ | ⟨pushed, pushed', hm, hk, hlive'⟩ := Stack.push?_of_live_eq hlive (m.pc + 2)
  · rw [hm, hk]
    exact ⟨rfl, ⟨rate, stack, drawn, rfl⟩, hlive, hbytes⟩
  · rw [hm, hk]
    exact ⟨rfl, ⟨rate, pushed', drawn, rfl⟩, hlive', hbytes⟩

theorem ret (h : Alike random random' m k) :
    m.ret.1 = k.ret.1 ∧ Alike random random' m.ret.2 k.ret.2 := by
  obtain ⟨⟨rate, stack, drawn, rfl⟩, hlive, hbytes⟩ := h
  unfold Machine.ret
  obtain ⟨hm, hk⟩ | ⟨address, popped, popped', hm, hk, hlive'⟩ := Stack.pop?_of_live_eq hlive
  · rw [hm, hk]
    exact ⟨rfl, ⟨rate, stack, drawn, rfl⟩, hlive, hbytes⟩
  · rw [hm, hk]
    exact ⟨rfl, ⟨rate, popped', drawn, rfl⟩, hlive', hbytes⟩

theorem random_byte (h : Alike random random' m k) (x : Fin 16) (mask : UInt8) :
    (m.execute random (.random x mask)).1 = (k.execute random' (.random x mask)).1 ∧
      Alike random random' (m.execute random (.random x mask)).2
        (k.execute random' (.random x mask)).2 := by
  obtain ⟨⟨rate, stack, drawn, rfl⟩, hlive, hbytes⟩ := h
  have hbyte : random m.drawn = random' drawn := hbytes 0
  refine ⟨rfl, ⟨rate, stack, drawn + 1, ?_⟩, hlive, fun n => ?_⟩
  · simp only [Machine.execute, Machine.twin, hbyte]
  · have hnext : random (m.drawn + (1 + n)) = random' (drawn + (1 + n)) := hbytes (1 + n)
    simpa only [Machine.execute, Machine.twin, Nat.add_assoc] using hnext

/-- All but calls, returns and random bytes act on a twin as on the machine. -/
theorem execute_of_twin (h : Alike random random' m k) {i : Instruction}
    (hcall : ∀ target, i ≠ .call target) (hret : i ≠ .ret)
    (hrandom : ∀ x mask, i ≠ .random x mask) :
    (m.execute random i).1 = (k.execute random' i).1 ∧
      Alike random random' (m.execute random i).2 (k.execute random' i).2 := by
  obtain ⟨rate, stack, drawn, rfl⟩ := h.twin
  have hx : (m.twin rate stack drawn).execute random' i =
      ((m.execute random i).1, (m.execute random i).2.twin rate stack drawn) := by
    apply execute_changed (f := twinChange rate stack drawn)
    case hconfig => exact fun _ _ _ => Instruction.not_tellsApart rfl rfl
    case htimers => exact fun _ => rfl
    case hstack =>
      rintro (rfl | ⟨target, rfl⟩)
      · exact absurd rfl hret
      · exact absurd rfl (hcall target)
    case hkey => exact fun _ => rfl
    case hdrawn =>
      rintro ⟨x, mask, rfl⟩
      exact absurd rfl (hrandom x mask)
  have hfoot := footprint_execute random m i
  rw [hx]
  exact ⟨rfl, h.after_twin (hfoot.stack hcall hret) (hfoot.drawn hrandom)⟩

theorem execute (h : Alike random random' m k) (i : Instruction) :
    (m.execute random i).1 = (k.execute random' i).1 ∧
      Alike random random' (m.execute random i).2 (k.execute random' i).2 := by
  cases i with
  | call target => exact h.call target
  | ret => exact h.ret
  | random x mask => exact h.random_byte x mask
  | _ => exact h.execute_of_twin (fun _ => nofun) nofun (fun _ _ => nofun)

theorem tick (h : Alike random random' m k) (now : Int) :
    Alike random random' (m.tick now) (k.tick now) := by
  obtain ⟨rate, stack, drawn, rfl⟩ := h.twin
  exact h.after_twin rfl rfl

theorem fetch (h : Alike random random' m k) : m.fetch = k.fetch := by
  obtain ⟨⟨rate, stack, drawn, rfl⟩, -, -⟩ := h
  rfl

/-! ## Commands -/

theorem edit (h : Alike random random' m k) {c : Command} (hc : c.Edits) :
    (m.perform random c).1 = (k.perform random' c).1 ∧
      Alike random random' (m.perform random c).2 (k.perform random' c).2 := by
  obtain ⟨rate, stack, drawn, rfl⟩ := h.twin
  have hx : (m.twin rate stack drawn).perform random' c = _ :=
    perform_changed (f := twinChange rate stack drawn) random random' hc (fun _ => rfl) fun _ => rfl
  have hedited := edited_of_edits random m hc
  rw [hx]
  exact ⟨rfl, h.after_twin hedited.stack hedited.drawn⟩

theorem reset (h : Alike random random' m k) : Alike random random' m.reset k.reset := by
  obtain ⟨⟨rate, stack, drawn, rfl⟩, -, hbytes⟩ := h
  rw [Machine.reset, Machine.reset]
  exact ⟨⟨rate, .empty, drawn, rfl⟩, rfl, hbytes⟩

end Alike

/-- Whatever is done to machines that are alike leaves them so. -/
theorem simulation_alike (random random' : RandomBytes) :
    Simulation random random' Eq (fun _ => True) (Alike random random') where
  fetch h := h.fetch
  pc h := by
    obtain ⟨rate, stack, drawn, rfl⟩ := h.twin
    rfl
  goOn pc h := by
    obtain ⟨rate, stack, drawn, rfl⟩ := h.twin
    exact h.after_twin rfl rfl
  tick := by
    rintro m k now _ h rfl
    exact h.tick now
  execute := by
    rintro m k now _ i h rfl - -
    exact (h.tick now).execute i
  other := by
    rintro m k c h (hc | rfl) -
    · exact h.edit hc
    · exact ⟨rfl, h.reset⟩

theorem Alike.perform (h : Alike random random' m k) (c : Command) :
    (m.perform random c).1 = (k.perform random' c).1 ∧
      Alike random random' (m.perform random c).2 (k.perform random' c).2 := by
  obtain ⟨hresult, hafter, -⟩ :=
    (simulation_alike random random').perform h (.refl c) fun _ _ => trivial
  exact ⟨hresult, hafter⟩

theorem Alike.performAll (h : Alike random random' m k) (cs : List Command) :
    Alike random random' (m.performAll random cs) (k.performAll random' cs) :=
  ((simulation_alike random random').sameCourse h (Command.forall₂_retimed_refl cs)
    fun _ _ => trivial).final

end Machine

end ChipVm
