/-
Program images in memory. An image is laid over the program space from its first address on, or
refused as a whole if it is longer than there is room for. After any number of images, accepted and
refused, each byte is that of the last accepted one that reaches so far, and the words of a program
are fetched as they stand in its image.
-/
import ChipVm.Proofs.Machine.Writes

namespace ChipVm

namespace Memory

variable {m k : Memory} {image : List UInt8} {images : List (List UInt8)} {i : Nat}

/-! ## One image -/

theorem load_of_lt (h : 3583 < image.length) (m : Memory) :
    m.load image = .error (.programTooLarge image.length 3583) :=
  dif_pos h

theorem load_of_le (h : image.length ≤ 3583) (m : Memory) : ∃ k, m.load image = .ok k :=
  ⟨_, dif_neg (Nat.not_lt.2 h)⟩

/-- An accepted image gives the program space its bytes, as far as it reaches. -/
theorem byte_load (h : m.load image = .ok k) (i : Nat) :
    k.byte (programStart + i) = image[i]?.getD (m.byte (programStart + i)) := by
  unfold load at h
  split at h
  · cases h
  · cases h
    rw [byte_overlay, if_pos (Nat.le_add_right _ _), Nat.add_sub_cancel_left,
      List.getElem?_toArray]

theorem byte_load_of_lt (h : m.load image = .ok k) {a : Nat} (ha : a < programStart) :
    k.byte a = m.byte a := by
  refine byte_edit (e := .load image) h ?_
  rw [Edit.cells, List.mem_range'_1]
  omega

/-! ## Many images -/

/-- The images that are not too long. -/
def accepted (images : List (List UInt8)) : List (List UInt8) :=
  images.filter fun image => decide (image.length ≤ 3583)

/-- The last image that is not too long and reaches a place of the program space. -/
def lastReaching? (images : List (List UInt8)) (i : Nat) : Option (List UInt8) :=
  ((accepted images).filter fun image => decide (i < image.length)).getLast?

theorem lastReaching?_cons_of_reaches (hle : image.length ≤ 3583) (hi : i < image.length) :
    lastReaching? (image :: images) i = some ((lastReaching? images i).getD image) := by
  simp [lastReaching?, accepted, hle, hi, List.getLast?_cons]

theorem lastReaching?_cons_of_not_reaches (h : ¬(image.length ≤ 3583 ∧ i < image.length)) :
    lastReaching? (image :: images) i = lastReaching? images i := by
  unfold lastReaching? accepted
  by_cases hle : image.length ≤ 3583
  · have hi : ¬i < image.length := fun hi => h ⟨hle, hi⟩
    simp [hle, hi]
  · simp [hle]

theorem reaches_of_lastReaching? (h : lastReaching? images i = some image) :
    image.length ≤ 3583 ∧ i < image.length := by
  have hmem := List.mem_of_getLast? h
  rw [List.mem_filter, accepted, List.mem_filter] at hmem
  exact ⟨of_decide_eq_true hmem.1.2, of_decide_eq_true hmem.2⟩

/-- The last accepted image is the last one at each place that it reaches. -/
theorem lastReaching?_of_getLast? (h : (accepted images).getLast? = some image)
    (hi : i < image.length) : lastReaching? images i = some image := by
  obtain ⟨before, hbefore⟩ := List.getLast?_eq_some_iff.1 h
  rw [lastReaching?, hbefore, List.filter_append,
    List.filter_cons_of_pos (by simpa using hi), List.filter_nil, List.getLast?_concat]

/-- What the images leave at a place of the program space, in front of what stood there. -/
def placed (images : List (List UInt8)) (i : Nat) (old : UInt8) : UInt8 :=
  ((lastReaching? images i).bind fun image => image[i]?).getD old

theorem placed_nil (i : Nat) (old : UInt8) : placed [] i old = old := rfl

/-- A further image in front is seen only where no later one reaches. -/
theorem placed_cons (hle : image.length ≤ 3583) (old : UInt8) :
    placed (image :: images) i old = placed images i (image[i]?.getD old) := by
  unfold placed
  by_cases hi : i < image.length
  · rw [lastReaching?_cons_of_reaches hle hi]
    cases hlast : lastReaching? images i with
    | none => simp [hi]
    | some last =>
      have hreach := (reaches_of_lastReaching? hlast).2
      simp [hreach]
  · rw [lastReaching?_cons_of_not_reaches fun h => hi h.2,
      List.getElem?_eq_none (Nat.not_lt.1 hi), Option.getD_none]

theorem placed_cons_of_lt (h : 3583 < image.length) (old : UInt8) :
    placed (image :: images) i old = placed images i old := by
  rw [placed, lastReaching?_cons_of_not_reaches fun hle => absurd hle.1 (Nat.not_le.2 h), placed]

theorem placed_of_le (h : 3583 ≤ i) (images : List (List UInt8)) (old : UInt8) :
    placed images i old = old := by
  unfold placed
  cases hlast : lastReaching? images i with
  | none => rfl
  | some image =>
    have hreach := reaches_of_lastReaching? hlast
    omega

/-! ## Fetching -/

/-- A word lies at two addresses, and the second one has to be one of memory too. -/
theorem fetch_eq (m : Memory) (pc : Int) :
    m.fetch pc = if 0 ≤ pc ∧ pc ≤ 4094 then .ok (.ofBytes (m.byte pc.toNat) (m.byte (pc.toNat + 1)))
      else .error (.invalidAddress pc .fetchPastEnd) := by
  by_cases hpc : 0 ≤ pc
  · obtain ⟨pc, rfl⟩ := Int.eq_ofNat_of_zero_le hpc
    rw [fetch_natCast, Int.toNat_natCast]
    congr 1
    exact propext ⟨fun h => ⟨hpc, by omega⟩, fun h => by omega⟩
  · rw [if_neg fun h => hpc h.1, fetch, dif_pos (by omega)]

theorem exists_fetch (m : Memory) {pc : Int} (h : 0 ≤ pc ∧ pc ≤ 4094) :
    ∃ w, m.fetch pc = .ok w ∧
      w.toNat = 256 * (m.byte pc.toNat).toNat + (m.byte (pc.toNat + 1)).toNat :=
  ⟨_, (m.fetch_eq pc).trans (if_pos h), Word.toNat_ofBytes _ _⟩

end Memory

namespace Machine

variable {m : Machine} {image : List UInt8}

/-- Commands that load images one after another. -/
def loads (images : List (List UInt8)) : List Command :=
  images.map fun image => .load (.image image)

theorem perform_load_of_lt (h : 3583 < image.length) (random : RandomBytes) (m : Machine) :
    m.perform random (.load (.image image)) =
      (.error (.fault (.programTooLarge image.length 3583)), m) := by
  simp only [perform, ProgramSource.read, load, Memory.load_of_lt h, Except.map]

theorem perform_load_of_le (h : image.length ≤ 3583) (random : RandomBytes) (m : Machine) :
    ∃ memory, m.memory.load image = .ok memory ∧
      m.perform random (.load (.image image)) =
        (.ok (.count image.length), { m with memory := memory }) := by
  obtain ⟨memory, hload⟩ := Memory.load_of_le h m.memory
  exact ⟨memory, hload, by simp only [perform, ProgramSource.read, load, hload, Except.map]⟩

/-- What loading changes: the program space, and only as far as the images reach. -/
structure LoadedOver (images : List (List UInt8)) (m after : Machine) : Prop where
  rest : ∃ memory, after = { m with memory := memory }
  program : ∀ i, after.memory.byte (0x200 + i) =
    Memory.placed images i (m.memory.byte (0x200 + i))
  below : ∀ a < 0x200, after.memory.byte a = m.memory.byte a

theorem loadedOver_performAll (random : RandomBytes) (m : Machine) (images : List (List UInt8)) :
    LoadedOver images m (m.performAll random (loads images)) := by
  induction images generalizing m with
  | nil => exact ⟨⟨m.memory, rfl⟩, fun i => (Memory.placed_nil i _).symm, fun a _ => rfl⟩
  | cons image images ih =>
    rw [loads, List.map_cons, performAll]
    rcases Nat.lt_or_ge 3583 image.length with hlong | hle
    · rw [perform_load_of_lt hlong]
      obtain ⟨hrest, hprogram, hbelow⟩ := ih m
      exact ⟨hrest, fun i => (hprogram i).trans (Memory.placed_cons_of_lt hlong _).symm, hbelow⟩
    · obtain ⟨memory, hload, hperform⟩ := perform_load_of_le hle random m
      rw [hperform]
      obtain ⟨⟨last, hlast⟩, hprogram, hbelow⟩ := ih { m with memory := memory }
      refine ⟨⟨last, hlast⟩, fun i => ?_, fun a ha => ?_⟩
      · rw [Memory.placed_cons hle]
        exact (hprogram i).trans (congrArg (Memory.placed images i) (Memory.byte_load hload i))
      · exact (hbelow a ha).trans (Memory.byte_load_of_lt hload ha)

/-- An image that is too long is refused and changes nothing; any other one is accepted. After
images loaded one after another, each byte of the program space is that of the last accepted image
that reaches it, and what no image can reach is as it was. A word is fetched at every address but
the last one of memory, the high byte first, so that the last accepted image is fetched as it is. -/
theorem programs_overlay_and_are_fetched (random : RandomBytes) (m : Machine)
    (images : List (List UInt8)) :
    (∀ (k : Machine) (image : List UInt8),
      (3583 < image.length →
        k.perform random (.load (.image image)) =
          (.error (.fault (.programTooLarge image.length 3583)), k)) ∧
      (image.length ≤ 3583 →
        ∃ memory, k.perform random (.load (.image image)) =
          (.ok (.count image.length), { k with memory := memory }))) ∧
    (∀ (k : Memory) (pc : Int),
      (0 ≤ pc ∧ pc ≤ 4094 → ∃ w, k.fetch pc = .ok w ∧
        w.toNat = 256 * (k.byte pc.toNat).toNat + (k.byte (pc.toNat + 1)).toNat) ∧
      (¬(0 ≤ pc ∧ pc ≤ 4094) → k.fetch pc = .error (.invalidAddress pc .fetchPastEnd))) ∧
    let after := m.performAll random (loads images)
    (∃ memory, after = { m with memory := memory }) ∧
    (∀ i < 3583, after.memory.byte (0x200 + i) =
      ((Memory.lastReaching? images i).bind fun image => image[i]?).getD
        (m.memory.byte (0x200 + i))) ∧
    (∀ a, a < 0x200 ∨ 0xFFE < a → after.memory.byte a = m.memory.byte a) ∧
    ∀ image, (Memory.accepted images).getLast? = some image →
      ∀ i (hi : i + 1 < image.length), ∃ w, after.memory.fetch (0x200 + i) = .ok w ∧
        w.toNat = 256 * image[i].toNat + image[i + 1].toNat := by
  obtain ⟨hrest, hprogram, hbelow⟩ := loadedOver_performAll random m images
  refine ⟨fun k image => ⟨fun h => perform_load_of_lt h random k, fun h => ?_⟩,
    fun k pc => ⟨fun h => k.exists_fetch h, fun h => (k.fetch_eq pc).trans (if_neg h)⟩,
    hrest, fun i _ => hprogram i, fun a ha => ?_, fun image hlast i hi => ?_⟩
  · obtain ⟨memory, -, hperform⟩ := perform_load_of_le h random k
    exact ⟨memory, hperform⟩
  · rcases Nat.lt_or_ge a 0x200 with hlow | hhigh
    · exact hbelow a hlow
    · obtain ⟨i, rfl⟩ := Nat.exists_eq_add_of_le hhigh
      exact (hprogram i).trans (Memory.placed_of_le (by omega) images _)
  · have hbyte (j : Nat) (hj : j < image.length) :
        (m.performAll random (loads images)).memory.byte (0x200 + j) = image[j] := by
      rw [hprogram, Memory.placed, Memory.lastReaching?_of_getLast? hlast hj]
      simp [hj]
    have hreach := Memory.reaches_of_lastReaching? (Memory.lastReaching?_of_getLast? hlast hi)
    have hpc : 0 ≤ ((0x200 + i : Nat) : Int) ∧ ((0x200 + i : Nat) : Int) ≤ 4094 := by omega
    obtain ⟨w, hw, hword⟩ := (m.performAll random (loads images)).memory.exists_fetch hpc
    refine ⟨w, hw, ?_⟩
    rw [hword, Int.toNat_natCast, hbyte i (Nat.lt_of_succ_lt hi), Nat.add_assoc, hbyte _ hi]

/-- A program, one that is too long, and a shorter program over the first one. -/
def patched : List (List UInt8) :=
  [[0x60, 0x0A, 0x12, 0x00], List.replicate 3584 0xFF, [0x61, 0x0B]]

theorem patched_program_is_fetched :
    (new {}).perform (fun _ => 0) (.load (.image (List.replicate 3584 0xFF))) =
      (.error (.fault (.programTooLarge 3584 3583)), new {}) ∧
    ((new {}).performAll (fun _ => 0) (loads patched)).memory.byte 0x201 = 0x0B ∧
    ((new {}).performAll (fun _ => 0) (loads patched)).memory.byte 0x202 = 0x12 ∧
    ((new {}).performAll (fun _ => 0) (loads patched)).memory.byte 0xFFF =
      Memory.initial.byte 0xFFF ∧
    (∃ w, ((new {}).performAll (fun _ => 0) (loads patched)).memory.fetch 0x200 = .ok w ∧
      w.toNat = 0x610B) ∧
    Memory.initial.fetch 4095 = .error (.invalidAddress 4095 .fetchPastEnd) := by
  obtain ⟨hload, hfetch, -, hprogram, hothers, hlast⟩ :=
    programs_overlay_and_are_fetched (fun _ => 0) (new {}) patched
  have hlength : (List.replicate 3584 (0xFF : UInt8)).length = 3584 := List.length_replicate
  have haccepted : Memory.accepted patched = [[0x60, 0x0A, 0x12, 0x00], [0x61, 0x0B]] := by
    simp [Memory.accepted, patched, -List.reduceReplicate]
  refine ⟨?_, ?_, ?_, hothers 0xFFF (.inr (by decide)), ?_, (hfetch _ 4095).2 (by decide)⟩
  · have hrefused := (hload (new {}) (List.replicate 3584 0xFF)).1
    rw [hlength] at hrefused
    exact hrefused (by decide)
  · rw [hprogram 1 (by decide)]
    simp [Memory.lastReaching?, haccepted]
  · rw [hprogram 2 (by decide)]
    simp [Memory.lastReaching?, haccepted]
  · exact hlast [0x61, 0x0B] (by rw [haccepted]; rfl) 0 (by decide)

end Machine

end ChipVm
