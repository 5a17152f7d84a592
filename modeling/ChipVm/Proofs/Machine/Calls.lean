/-
Calls and returns over whole histories. The addresses on the stack are those behind the calls that
no return has answered yet, oldest first, whatever the slots above the depth still hold and whatever
a program has written to memory; and a return that answers a call leads back behind it.
-/
import ChipVm.Proofs.Machine.History

namespace ChipVm

/-! ## Transfers -/

/-- What changes the stack: a call at an address, a return, or a reset. -/
inductive Transfer where
  | call (address : Nat)
  | ret
  | reset
  deriving DecidableEq

namespace Transfer

/-- The addresses of the calls still open, newest first as the transfers are, where `answered` of
them have been answered by returns that come later. A return answers the newest call before it that
is still open; a reset leaves no call open. -/
def openCalls (answered : Nat) : List Transfer → List Nat
  | [] => []
  | .reset :: _ => []
  | .ret :: earlier => openCalls (answered + 1) earlier
  | .call address :: earlier =>
    match answered with
    | 0 => address :: openCalls 0 earlier
    | answered + 1 => openCalls answered earlier

theorem openCalls_eq_drop (answered : Nat) (ts : List Transfer) :
    openCalls answered ts = (openCalls 0 ts).drop answered := by
  induction ts generalizing answered with
  | nil => simp [openCalls]
  | cons t earlier ih =>
    cases t with
    | reset => simp [openCalls]
    | ret => rw [openCalls, openCalls, ih (answered + 1), ih (0 + 1), List.drop_drop, Nat.add_comm]
    | call address =>
      cases answered with
      | zero => rfl
      | succ answered => exact ih answered

/-- The live addresses after a transfer. -/
def applyTo (live : List Nat) : Transfer → List Nat
  | .call address => live ++ [address + 2]
  | .ret => live.dropLast
  | .reset => []

theorem openCalls_cons (t : Transfer) (ts : List Transfer) :
    ((openCalls 0 (t :: ts)).map (· + 2)).reverse =
      t.applyTo ((openCalls 0 ts).map (· + 2)).reverse := by
  cases t with
  | reset => rfl
  | call address => simp [openCalls, applyTo]
  | ret =>
    rw [openCalls, openCalls_eq_drop, applyTo, List.dropLast_reverse, List.map_drop]
    simp

/-- Addresses at the bottom stay there as long as the stack does not fall below them. -/
theorem prefix_applyTo {base live : List Nat} (t : Transfer) (h : base <+: live)
    (hl : base.length ≤ (t.applyTo live).length) : base <+: t.applyTo live := by
  cases t with
  | call address => exact h.trans (List.prefix_append live _)
  | ret => exact List.prefix_of_prefix_length_le h (List.dropLast_prefix live) hl
  | reset =>
    obtain rfl : base = [] := List.length_eq_zero_iff.1 (Nat.le_zero.1 hl)
    exact List.nil_prefix

end Transfer

/-- The transfer of an instruction at an address, if it is one. -/
def Instruction.transfer? (pc : Nat) : Instruction → Option Transfer
  | .call _ => some (.call pc)
  | .ret => some .ret
  | _ => none

/-- The transfer of a moment, if it is one: a call or a return must have gone through. -/
def Moment.transfer? (random : RandomBytes) (x : Moment) : Option Transfer :=
  match x.command with
  | .reset => some .reset
  | _ => (x.executed? random).bind (·.transfer? x.machine.pc)

theorem Moment.transfer?_of_edits {random : RandomBytes} (m : Machine) {c : Command}
    (hc : c.Edits) : Moment.transfer? random ⟨m, c⟩ = none := by
  cases c with
  | reset => cases hc
  | _ => rw [transfer?, executed?_of_edits m hc, Option.bind_none]

namespace Machine

variable {random : RandomBytes} {m after : Machine}

/-! ## One step -/

theorem step_call {target : Nat} (hf : m.fetch = .ok (.call target)) (hd : m.stack.depth < 16)
    (random : RandomBytes) (now : Int) :
    ∃ after, m.step random now = (.ok .advanced, after) ∧
      after.stack.live = m.stack.live ++ [m.pc + 2] ∧ after.pc = target ∧
      after.memory = m.memory := by
  obtain ⟨stack, hp⟩ : ∃ stack, m.stack.push? (m.pc + 2) = some stack :=
    Option.ne_none_iff_exists'.1 fun hnone => by
      rw [Stack.push?_eq_none_iff.1 hnone] at hd
      omega
  have hx : (m.tick now).execute random (.call target) =
      (.ok (.goto target), { m.tick now with stack := stack }) := by
    simp only [execute, call, tick, hp]
  exact ⟨_, step_of_execute hf hx, Stack.live_push? hp, rfl, rfl⟩

theorem step_ret (hf : m.fetch = .ok .ret) (hd : 0 < m.stack.depth) (random : RandomBytes)
    (now : Int) :
    ∃ after, m.step random now = (.ok .advanced, after) ∧
      m.stack.live = after.stack.live ++ [after.pc] ∧ after.memory = m.memory := by
  obtain ⟨⟨address, stack⟩, hp⟩ : ∃ popped, m.stack.pop? = some popped :=
    Option.ne_none_iff_exists'.1 fun hnone => by
      rw [Stack.pop?_eq_none_iff.1 hnone] at hd
      omega
  have hx : (m.tick now).execute random .ret =
      (.ok (.goto address), { m.tick now with stack := stack }) := by
    simp only [execute, ret, tick, hp]
  exact ⟨_, step_of_execute hf hx, Stack.live_pop? hp, rfl⟩

/-- What a step does to the live addresses. -/
theorem live_step (random : RandomBytes) (m : Machine) (now : Int) :
    (m.step random now).2.stack.live =
      ((Moment.transfer? random ⟨m, .step now⟩).elim m.stack.live
        (·.applyTo m.stack.live)) := by
  rcases hs : m.step random now with ⟨e | status, after⟩
  · -- A step that fails has changed the timers only.
    obtain ⟨f, -, -, rfl⟩ := step_eq_error_iff.1 hs
    simp only [Moment.transfer?, Moment.executed?_step_error hs]
    rfl
  · obtain ⟨i, flow, k, pc, completed, hf, hx, rfl⟩ := step_touches hs
    have hframe := frame_of_execute hx
    simp only [Moment.transfer?, Moment.executed?_step_ok hf hs, Option.bind_some]
    cases i with
    | call target =>
      obtain ⟨stack, hpush, -, rfl⟩ := call_ok hx
      exact Stack.live_push? hpush
    | ret =>
      obtain ⟨address, stack, hpop, -, rfl⟩ := ret_ok hx
      have hlive : m.stack.live = stack.live ++ [address] := Stack.live_pop? hpop
      simp only [Instruction.transfer?, Option.elim_some, Transfer.applyTo, hlive,
        List.dropLast_concat]
    | _ =>
      rw [hframe.stack (by simp) (by simp)]
      rfl

/-- A call that goes through pushes the address behind itself. -/
theorem live_step_call {target : Nat} {status : Status} {now : Int}
    (hf : m.fetch = .ok (.call target)) (h : (m.step random now).1 = .ok status) :
    (m.step random now).2.stack.live = m.stack.live ++ [m.pc + 2] := by
  have hs : m.step random now = (.ok status, (m.step random now).2) := Prod.ext h rfl
  rw [live_step, Moment.transfer?, Moment.executed?_step_ok hf hs]
  rfl

/-! ## Histories -/

theorem live_perform (m : Machine) {c : Command} (hc : c.Single) :
    (m.perform random c).2.stack.live =
      ((Moment.transfer? random ⟨m, c⟩).elim m.stack.live (·.applyTo m.stack.live)) := by
  obtain ⟨now, rfl⟩ | rfl | he := hc.step_or_reset_or_edits
  · rw [perform_step_snd]
    exact live_step random m now
  · rfl
  · rw [(edited_of_edits random m he).stack, Moment.transfer?_of_edits m he]
    rfl

/-- The addresses of the calls that are still open after some commands, oldest first. -/
def openCalls (random : RandomBytes) (m : Machine) (cs : List Command) : List Nat :=
  (Transfer.openCalls 0 ((m.moments random cs).filterMap (·.transfer? random)).reverse).reverse

/-- From an empty stack, the live addresses are those behind the open calls. -/
theorem live_performAll (h : m.stack.live = []) (cs : List Command) :
    (m.performAll random cs).stack.live = (m.openCalls random cs).map (· + 2) := by
  rw [openCalls, List.map_reverse]
  refine moments_induction (motive := fun past k => k.stack.live =
    ((Transfer.openCalls 0 (past.filterMap (·.transfer? random)).reverse).map (· + 2)).reverse)
    (fun past k c hc hk => ?_) h cs
  rw [live_perform k hc, List.filterMap_append, List.reverse_append]
  cases ht : Moment.transfer? random ⟨k, c⟩ with
  | none => simpa [ht] using hk
  | some t => simpa [ht, hk] using (Transfer.openCalls_cons t _).symm

/-- The bottom of the stack stays as it is while the depth does not fall below it. -/
theorem prefix_live_performAll {base : List Nat} (h : base <+: m.stack.live) (cs : List Command)
    (hdepth : ∀ x ∈ m.moments random cs, base.length ≤ x.machine.stack.depth)
    (hlast : base.length ≤ (m.performAll random cs).stack.depth) :
    base <+: (m.performAll random cs).stack.live := by
  refine moments_induction (motive := fun past k =>
    (∀ x ∈ past, base.length ≤ x.machine.stack.depth) → base.length ≤ k.stack.depth →
      base <+: k.stack.live)
    (fun past k c hc hk hpast hlast => ?_) (fun _ _ => h) cs hdepth hlast
  have hbefore : base <+: k.stack.live :=
    hk (fun x hx => hpast x (List.mem_append_left _ hx))
      (hpast _ (List.mem_append_right _ List.mem_cons_self))
  rw [← Stack.length_live] at hlast
  rw [live_perform k hc] at hlast ⊢
  cases ht : Moment.transfer? random ⟨k, c⟩ with
  | none => exact hbefore
  | some t =>
    rw [ht] at hlast
    exact t.prefix_applyTo hbefore hlast

/-- In every history the live addresses are those behind the calls that are still open. And a
return that is executed at the depth to which a call has led, with no lesser depth in between, goes
through, leads back behind the call and leaves the stack as it was before it, whatever a host and
the program have done in the meantime. -/
theorem returns_match_calls (random : RandomBytes) :
    (∀ {choice : Option Config.Choice} {program : Option ProgramSource} {m : Machine},
      boot choice program = .ok m → ∀ cs : List Command,
        (m.performAll random cs).stack.live = (m.openCalls random cs).map (· + 2)) ∧
    ∀ {m : Machine} {target : Nat} {now : Int} {status : Status} {cs : List Command},
      m.fetch = .ok (.call target) → (m.step random now).1 = .ok status →
      (∀ x ∈ (m.step random now).2.moments random cs,
        m.stack.depth + 1 ≤ x.machine.stack.depth) →
      let inner := (m.step random now).2.performAll random cs
      inner.fetch = .ok .ret → inner.stack.depth = m.stack.depth + 1 →
      ∀ last : Int,
        (inner.step random last).1 = .ok .advanced ∧
        (inner.step random last).2.pc = m.pc + 2 ∧
        (inner.step random last).2.stack.depth = m.stack.depth ∧
        (inner.step random last).2.stack.live = m.stack.live := by
  constructor
  · intro choice program m h cs
    obtain ⟨⟨memory, -, hm⟩, -⟩ := boot_ok h
    exact live_performAll (by rw [hm]; rfl) cs
  · intro m target now status cs hf hs hdepth inner hret hinner last
    have hcalled := live_step_call hf hs
    have hlength : (m.stack.live ++ [m.pc + 2]).length = m.stack.depth + 1 := by
      rw [List.length_append, Stack.length_live, List.length_singleton]
    have hbottom : m.stack.live ++ [m.pc + 2] <+: inner.stack.live := by
      refine prefix_live_performAll (hcalled ▸ List.prefix_refl _) cs (fun x hx => ?_) ?_
      · rw [hlength]
        exact hdepth x hx
      · exact Nat.le_of_eq (hlength.trans hinner.symm)
    -- At this depth there is nothing above the bottom.
    have hlive : m.stack.live ++ [m.pc + 2] = inner.stack.live :=
      hbottom.eq_of_length (by rw [hlength, Stack.length_live, hinner])
    obtain ⟨after, hstep, hpopped, -⟩ := step_ret hret (by omega) random last
    obtain ⟨hrest, haddress⟩ := List.append_inj' (hlive.trans hpopped) rfl
    rw [hstep]
    refine ⟨rfl, (List.singleton_inj.1 haddress).symm, ?_, hrest.symm⟩
    rw [← Stack.length_live, ← hrest, Stack.length_live]

/-- A program whose subroutine calls another one. -/
def nestedCalls : Machine :=
  { new {} with
    memory := Memory.initial.overlay 0x200
      #[0x22, 0x04, 0x12, 0x02, 0x22, 0x08, 0x00, 0xEE, 0x00, 0xEE] (by decide) }

theorem fetch_nestedCalls {k : Machine} (hk : k.memory = nestedCalls.memory) :
    (k.pc = 0x200 → k.fetch = .ok (.call 0x204)) ∧ (k.pc = 0x204 → k.fetch = .ok (.call 0x208)) ∧
      (k.pc = 0x206 ∨ k.pc = 0x208 → k.fetch = .ok .ret) := by
  have hm : ∃ fits, k.memory = Memory.initial.overlay 0x200
      #[0x22, 0x04, 0x12, 0x02, 0x22, 0x08, 0x00, 0xEE, 0x00, 0xEE] fits := ⟨by decide, hk⟩
  refine ⟨fun hp => ?_, fun hp => ?_, ?_⟩
  · exact fetch_of_overlay hm hp (by decide) rfl rfl ⟨rfl, rfl⟩
  · exact fetch_of_overlay hm hp (by decide) rfl rfl ⟨rfl, rfl⟩
  · rintro (hp | hp)
    · exact fetch_of_overlay hm hp (by decide) rfl rfl ⟨rfl, rfl⟩
    · exact fetch_of_overlay hm hp (by decide) rfl rfl ⟨rfl, rfl⟩

theorem nested_call_returns :
    boot none (some (.image [0x22, 0x04, 0x12, 0x02, 0x22, 0x08, 0x00, 0xEE, 0x00, 0xEE])) =
      .ok nestedCalls ∧
    (nestedCalls.performAll (fun _ => 0) [.step 7, .step 7]).stack.live =
      (nestedCalls.openCalls (fun _ => 0) [.step 7, .step 7]).map (· + 2) ∧
    ∃ called inner : Machine,
      nestedCalls.step (fun _ => 0) 7 = (.ok .advanced, called) ∧
      called.performAll (fun _ => 0) [.step 7, .setKey (.int 5), .step 7] = inner ∧
      (inner.step (fun _ => 0) 7).2.pc = 0x202 ∧ (inner.step (fun _ => 0) 7).2.stack.live = [] := by
  obtain ⟨hopen, hreturns⟩ := returns_match_calls fun _ => 0
  have hboot : boot none (some (.image
      [0x22, 0x04, 0x12, 0x02, 0x22, 0x08, 0x00, 0xEE, 0x00, 0xEE])) = .ok nestedCalls := rfl
  -- Two calls, a key, and the return of the inner call.
  have hf0 : nestedCalls.fetch = .ok (.call 0x204) := (fetch_nestedCalls rfl).1 rfl
  obtain ⟨m1, h1, hlive1, hpc1, hm1⟩ := step_call hf0 (by decide) (fun _ => 0) 7
  have hd1 : m1.stack.depth = 1 := by rw [← Stack.length_live, hlive1]; rfl
  have hf1 : m1.fetch = .ok (.call 0x208) := (fetch_nestedCalls hm1).2.1 hpc1
  obtain ⟨m2, h2, hlive2, hpc2, hm2⟩ := step_call hf1 (by omega) (fun _ => 0) 7
  have hd2 : m2.stack.depth = 2 := by rw [← Stack.length_live, hlive2, hlive1]; rfl
  have hf2 : (m2.setKey (some ⟨5⟩)).fetch = .ok .ret :=
    (fetch_nestedCalls (hm2.trans hm1)).2.2 (.inr hpc2)
  obtain ⟨m3, h3, hlive3, hm3⟩ :=
    step_ret hf2 (show 0 < m2.stack.depth by omega) (fun _ => 0) 7
  obtain ⟨hrest3, hpc3⟩ := List.append_inj' (hlive2.symm.trans hlive3) rfl
  have hd3 : m3.stack.depth = 1 := by rw [← Stack.length_live, ← hrest3, Stack.length_live, hd1]
  have hf3 : m3.fetch = .ok .ret :=
    (fetch_nestedCalls (hm3.trans (hm2.trans hm1))).2.2
      (.inl (by rw [← List.singleton_inj.1 hpc3, hpc1]))
  have hkey : (m2.perform (fun _ => 0) (.setKey (.int 5))).2 = m2.setKey (some ⟨5⟩) := rfl
  have hinner : m1.performAll (fun _ => 0) [.step 7, .setKey (.int 5), .step 7] = m3 := by
    rw [performAll, performAll, performAll, performAll, perform_step_snd, perform_step_snd, h2,
      hkey, h3]
  have hdepth : ∀ x ∈ m1.moments (fun _ => 0) [.step 7, .setKey (.int 5), .step 7],
      nestedCalls.stack.depth + 1 ≤ x.machine.stack.depth := by
    simp only [moments, momentsOf, perform_step_snd, h2, hkey]
    rintro x (_ | ⟨_, _ | ⟨_, _ | ⟨_, hx⟩⟩⟩)
    · exact Nat.le_of_eq hd1.symm
    · exact hd2.symm ▸ Nat.le_succ 1
    · exact (show m2.stack.depth = 2 from hd2).symm ▸ Nat.le_succ 1
    · cases hx
  have hreturn := @hreturns nestedCalls 0x204 7 .advanced
    [.step 7, .setKey (.int 5), .step 7] hf0 (congrArg Prod.fst h1)
  rw [h1] at hreturn
  obtain ⟨-, hpc, -, hlive⟩ := hreturn hdepth (hinner ▸ hf3) (hinner ▸ hd3) 7
  exact ⟨hboot, hopen hboot _, m1, _, h1, rfl, hpc, hlive⟩

end Machine

end ChipVm
