/-
Snapshots and what is to come. A snapshot leaves out the glyphs, which are the same in every
machine, the bytes between them and the program, the tick reference, the configuration and the slots
of the stack above the depth. Where the bytes, the reference and the choices that instructions read
are the same too, two machines with the same snapshot go on alike, whatever a host does to both.
-/
import ChipVm.Proofs.Machine.Alike
import ChipVm.Snapshot.Basic

namespace ChipVm

/-! ## What a snapshot tells -/

theorem Registers.values_inj {r s : Registers} :
    r.cells.toList.map (fun v => (v.toNat : Int)) = s.cells.toList.map (fun v => (v.toNat : Int)) ↔
      r = s := by
  rw [List.map_inj_right fun v w h => UInt8.toNat_inj.1 (Int.ofNat_inj.1 h), Vector.toList_inj]
  constructor
  · intro h
    exact ext fun x => congrArg (·[x]) h
  · intro h
    rw [h]

theorem Screen.pixels_injective : Function.Injective Screen.pixels := by
  rintro ⟨rows⟩ ⟨rows'⟩ h
  -- All rows are of one length, so that they can be told apart in the sequence of all pixels.
  have hlengths (rows : Vector (Vector Bool 64) 32) :
      (rows.toList.map Vector.toList).map List.length = List.replicate 32 64 :=
    List.eq_replicate_iff.2 ⟨by simp, by simp⟩
  have hrows : rows.toList.map Vector.toList = rows'.toList.map Vector.toList := by
    refine List.eq_iff_flatten_eq.2 ⟨?_, (hlengths rows).trans (hlengths rows').symm⟩
    simpa only [pixels, List.flatMap_def] using h
  congr 1
  exact Vector.toList_inj.1 ((List.map_inj_right fun _ _ => Vector.toList_inj.1).1 hrows)

theorem Screen.bytes_inj {s t : Screen} :
    s.pixels.map (fun b => if b then (1 : UInt8) else 0) =
      t.pixels.map (fun b => if b then (1 : UInt8) else 0) ↔ s = t := by
  rw [List.map_inj_right (by decide), pixels_injective.eq_iff]

theorem Key.number_inj {j k : Option Key} :
    j.map (fun k => (k.digit.val : Int)) = k.map (fun k => (k.digit.val : Int)) ↔ j = k := by
  refine (Option.map_injective fun a b h => ?_).eq_iff
  have hdigit : a.digit = b.digit := Fin.ext (Int.ofNat_inj.1 h)
  cases a
  cases b
  exact congrArg Key.mk hdigit

namespace Memory

theorem slice_eq_iff {m k : Memory} {start stop : Nat} (h : stop ≤ 4096) :
    m.slice start stop = k.slice start stop ↔
      ∀ a, start ≤ a → a < stop → m.byte a = k.byte a := by
  rw [slice_eq_map m h, slice_eq_map k h, List.map_inj_left]
  constructor
  · intro hbytes a hle hlt
    have := hbytes (a - start) (List.mem_range.2 (by omega))
    rwa [Nat.add_sub_cancel' hle] at this
  · intro hbytes i hi
    rw [List.mem_range] at hi
    exact hbytes (start + i) (by omega) (by omega)

theorem overlay_overlay (m : Memory) {start : Nat} {old data : Array UInt8}
    (hsize : old.size = data.size) (hold : start + old.size ≤ 4096)
    (hdata : start + data.size ≤ 4096) :
    (m.overlay start old hold).overlay start data hdata = m.overlay start data hdata := by
  refine ext fun a _ => ?_
  simp only [byte_overlay]
  split
  · by_cases hin : a - start < data.size
    · rw [Array.getElem?_eq_getElem hin, Option.getD_some, Option.getD_some]
    · have hdata : data[a - start]? = none := Array.getElem?_eq_none (Nat.not_lt.1 hin)
      have hold : old[a - start]? = none := Array.getElem?_eq_none (by omega)
      rw [hdata, hold]
      rfl
  · rfl

/-- The bytes between the glyphs and the program. -/
def reserved (m : Memory) : List UInt8 := m.slice glyphEnd programStart

theorem reserved_eq_iff {m k : Memory} :
    m.reserved = k.reserved ↔ ∀ a, glyphEnd ≤ a → a < programStart → m.byte a = k.byte a :=
  slice_eq_iff (by decide)

theorem programSpace_eq_iff {m k : Memory} :
    m.programSpace = k.programSpace ↔ ∀ a, programStart ≤ a → a < size → m.byte a = k.byte a :=
  slice_eq_iff (Nat.le_refl size)

/-- With the glyphs in place, memory is told by the bytes behind them. -/
theorem eq_of_reserved_of_programSpace {m k : Memory} (hm : m.HasGlyphs) (hk : k.HasGlyphs)
    (hreserved : m.reserved = k.reserved) (hprogram : m.programSpace = k.programSpace) : m = k := by
  refine ext fun a ha => ?_
  by_cases hglyph : a < glyphEnd
  · rw [hm a hglyph, hk a hglyph]
  · by_cases hstart : a < programStart
    · exact reserved_eq_iff.1 hreserved a (Nat.not_lt.1 hglyph) hstart
    · exact programSpace_eq_iff.1 hprogram a (Nat.not_lt.1 hstart) ha

end Memory

namespace Machine

variable {random random' : RandomBytes} {m k : Machine}

theorem snapshot_eq_iff :
    m.snapshot = k.snapshot ↔
      m.registers = k.registers ∧ m.index = k.index ∧ m.pc = k.pc ∧
        m.stack.live = k.stack.live ∧ m.completed = k.completed ∧
        m.timers.delay = k.timers.delay ∧ m.timers.sound = k.timers.sound ∧
        m.memory.programSpace = k.memory.programSpace ∧ m.screen = k.screen ∧ m.key = k.key := by
  have hlive : m.stack.live.map Int.ofNat = k.stack.live.map Int.ofNat ↔
      m.stack.live = k.stack.live := List.map_inj_right fun _ _ => Int.ofNat_inj.1
  have hdepth (h : m.stack.live = k.stack.live) : m.stack.depth = k.stack.depth := by
    rw [← Stack.length_live, h, Stack.length_live]
  simp only [snapshot, Snapshot.mk.injEq, CpuSnapshot.mk.injEq, TimerSnapshot.mk.injEq,
    Registers.values_inj, hlive, Screen.bytes_inj, Key.number_inj, Array.mk.injEq, Int.ofNat_inj,
    UInt8.toNat_inj]
  constructor
  · rintro ⟨⟨hregisters, hindex, hpc, -, hstack, hcompleted⟩, ⟨hdelay, hsound⟩, hrest⟩
    exact ⟨hregisters, hindex, hpc, hstack, hcompleted, hdelay, hsound, hrest⟩
  · rintro ⟨hregisters, hindex, hpc, hstack, hcompleted, hdelay, hsound, hrest⟩
    exact ⟨⟨hregisters, hindex, hpc, hdepth hstack, hstack, hcompleted⟩, ⟨hdelay, hsound⟩, hrest⟩

/-! ## What is to come -/

/-- Whether two machines look alike: by their snapshots, the bytes between the glyphs and the
program, the tick reference, the choices that instructions read and the random bytes to come. The
rates may differ, and so may the slots above the depth. -/
structure LooksAlike (random random' : RandomBytes) (m k : Machine) : Prop where
  snapshot : m.snapshot = k.snapshot
  reserved : m.memory.reserved = k.memory.reserved
  lastTick : m.timers.lastTick = k.timers.lastTick
  shift : m.config.shift = k.config.shift
  block : m.config.block = k.config.block
  bytes : ∀ n, random (m.drawn + n) = random' (k.drawn + n)

theorem LooksAlike.alike (h : LooksAlike random random' m k) (hm : m.memory.HasGlyphs)
    (hk : k.memory.HasGlyphs) : Alike random random' m k := by
  obtain ⟨hregisters, hindex, hpc, hlive, hcompleted, hdelay, hsound, hprogram, hscreen, hkey⟩ :=
    snapshot_eq_iff.1 h.snapshot
  have hmemory : m.memory = k.memory :=
    Memory.eq_of_reserved_of_programSpace hm hk h.reserved hprogram
  have htimers : m.timers = k.timers := by
    calc m.timers = ⟨m.timers.delay, m.timers.sound, m.timers.lastTick⟩ := rfl
      _ = k.timers := by rw [hdelay, hsound, h.lastTick]
  refine ⟨⟨k.config.rate, k.stack, k.drawn, ?_⟩, hlive, h.bytes⟩
  simp only [twin, h.shift, h.block, hmemory, hscreen, htimers, hregisters, hindex, hpc, hkey,
    hcompleted]

theorem Alike.looksAlike (h : Alike random random' m k) : LooksAlike random random' m k := by
  obtain ⟨⟨rate, stack, drawn, rfl⟩, hlive, hbytes⟩ := h
  exact ⟨snapshot_eq_iff.2 ⟨rfl, rfl, rfl, hlive, rfl, rfl, rfl, rfl, rfl, rfl⟩, rfl, rfl, rfl, rfl,
    hbytes⟩

/-- Whether two machines go on alike: after any commands they look alike, and each command then has
the same answer from both, be it a value or a refusal. -/
structure GoOnAlike (random random' : RandomBytes) (m k : Machine) : Prop where
  look : ∀ cs, LooksAlike random random' (m.performAll random cs) (k.performAll random' cs)
  answer : ∀ cs c, ((m.performAll random cs).perform random c).1 =
    ((k.performAll random' cs).perform random' c).1

theorem Alike.goOnAlike (h : Alike random random' m k) : GoOnAlike random random' m k where
  look cs := (h.performAll cs).looksAlike
  answer cs c := ((h.performAll cs).perform c).1

/-- Machines that look alike go on alike. What calls have left on the stack above the depth, and the
rate, never show. -/
theorem snapshot_determines_future (hm : Reachable random m) (hk : Reachable random' k)
    (h : LooksAlike random random' m k) : GoOnAlike random random' m k :=
  (h.alike hm.bounded.glyphs hk.bounded.glyphs).goOnAlike

/-- A machine that has called and is about to return. -/
def returning : Machine :=
  { new {} with
    memory := Memory.initial.overlay 0x200 #[0x22, 0x04, 0x12, 0x02, 0x00, 0xEE] (by decide)
    timers := ⟨0, 0, some 0⟩
    pc := 0x204
    stack := { slots := (Vector.replicate 16 0).set 0 0x202, depth := 1 }
    completed := 1 }

/-- The same machine after the return: the address is still in the lowest slot. -/
def returned : Machine :=
  { returning with
    pc := 0x202
    stack := { Stack.empty with slots := (Vector.replicate 16 0).set 0 0x202 }
    completed := 2 }

/-- A machine that is about to jump for the second time, with a rate that is no number. -/
def jumping : Machine :=
  { new { rate := .real .nan } with
    memory := Memory.initial.overlay 0x200 #[0x12, 0x04, 0x12, 0x02, 0x12, 0x02] (by decide)
    timers := ⟨0, 0, some 0⟩
    pc := 0x204
    completed := 1 }

/-- The same machine after the jump, with the other program loaded over its own. -/
def reloaded : Machine :=
  { jumping with
    memory := jumping.memory.overlay 0x200 #[0x22, 0x04, 0x12, 0x02, 0x00, 0xEE] (by decide)
    pc := 0x202
    completed := 2 }

theorem reachable_returned : Reachable random returned := by
  have hboot : boot none (some (.image [0x22, 0x04, 0x12, 0x02, 0x00, 0xEE])) =
      .ok { new {} with memory := returning.memory } := rfl
  have hm : ∃ fits, returning.memory =
      Memory.initial.overlay 0x200 #[0x22, 0x04, 0x12, 0x02, 0x00, 0xEE] fits := ⟨by decide, rfl⟩
  have hcall : fetch { new {} with memory := returning.memory } = .ok (.call 0x204) :=
    fetch_of_overlay (p := 0x200) hm rfl (by decide) rfl rfl ⟨rfl, rfl⟩
  have hret : returning.fetch = .ok .ret :=
    fetch_of_overlay (p := 0x204) hm rfl (by decide) rfl rfl ⟨rfl, rfl⟩
  have hfirst : Machine.step random 0 { new {} with memory := returning.memory } =
      (.ok .advanced, returning) := step_of_execute hcall rfl
  have hsecond : returning.step random 0 = (.ok .advanced, returned) := step_of_execute hret rfl
  have h : Reachable random _ := (Reachable.boot hboot).performAll [.step 0, .step 0]
  rwa [performAll, performAll, performAll, perform_step_snd, perform_step_snd, hfirst,
    hsecond] at h

theorem reachable_reloaded : Reachable random reloaded := by
  have hboot : boot (some (.arguments none none (some (.real .nan))))
      (some (.image [0x12, 0x04, 0x12, 0x02, 0x12, 0x02])) =
      .ok { new { rate := .real .nan } with memory := jumping.memory } := rfl
  have hm : ∃ fits, jumping.memory =
      Memory.initial.overlay 0x200 #[0x12, 0x04, 0x12, 0x02, 0x12, 0x02] fits := ⟨by decide, rfl⟩
  have hjump : fetch { new { rate := .real .nan } with memory := jumping.memory } =
      .ok (.jump 0x204) := fetch_of_overlay (p := 0x200) hm rfl (by decide) rfl rfl ⟨rfl, rfl⟩
  have hback : jumping.fetch = .ok (.jump 0x202) :=
    fetch_of_overlay (p := 0x204) hm rfl (by decide) rfl rfl ⟨rfl, rfl⟩
  have hfirst : Machine.step random 0 { new { rate := .real .nan } with memory := jumping.memory } =
      (.ok .advanced, jumping) := step_of_execute hjump rfl
  have hsecond : jumping.step random 0 = (.ok .advanced,
      { jumping with pc := 0x202, completed := 2 }) := step_of_execute hback rfl
  have h : Reachable random _ := (Reachable.boot hboot).performAll
    [.step 0, .step 0, .load (.image [0x22, 0x04, 0x12, 0x02, 0x00, 0xEE])]
  rw [performAll, performAll, performAll, perform_step_snd, perform_step_snd, hfirst,
    hsecond] at h
  exact h

theorem looksAlike_returned_reloaded (random : RandomBytes) :
    LooksAlike random random returned reloaded := by
  have hmemory : reloaded.memory = returned.memory := by
    simp only [reloaded, jumping, returned, returning]
    refine Memory.overlay_overlay _ ?_ _ _
    rfl
  refine ⟨snapshot_eq_iff.2 ⟨rfl, rfl, rfl, rfl, rfl, rfl, rfl, ?_, rfl, rfl⟩, ?_, rfl, rfl, rfl,
    fun _ => rfl⟩
  · rw [hmemory]
  · rw [hmemory]

theorem forgotten_call_never_shows :
    Reachable (fun _ => 0) returned ∧ Reachable (fun _ => 0) reloaded ∧
    returned.stack ≠ reloaded.stack ∧ returned.config.rate ≠ reloaded.config.rate ∧
    LooksAlike (fun _ => 0) (fun _ => 0) returned reloaded ∧
    GoOnAlike (fun _ => 0) (fun _ => 0) returned reloaded :=
  ⟨reachable_returned, reachable_reloaded, by decide, by decide, looksAlike_returned_reloaded _,
    snapshot_determines_future reachable_returned reachable_reloaded
      (looksAlike_returned_reloaded _)⟩

end Machine

end ChipVm
