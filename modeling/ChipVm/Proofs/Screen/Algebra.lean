/-
The algebra of drawing. A sprite drawn a second time at the same place is undone, two sprites give
the same screen in either order, and a sprite may be cut in two that are drawn one below the other.
The lit pixels are counted exactly: each set bit lights a pixel or puts one out, also where a tall
sprite falls on itself.
-/
import ChipVm.Proofs.Screen.Coverage

namespace ChipVm.Screen

/-! ## Counts -/

/-- How many bits of a sprite are set. -/
def setBits (sprite : List Int) : Nat :=
  (Finset.univ.filter fun p : Fin sprite.length × Fin 8 =>
    (sprite.get p.1 % 256).toNat.testBit (7 - p.2.val) = true).card

/-- How many lit pixels a sprite puts out: the number of its set bits that fall on a pixel that is
lit once the rows above have been drawn. -/
def putOut (s : Screen) (x y : Int) (sprite : List Int) : Nat :=
  (Finset.univ.filter fun p : Fin sprite.length × Fin 8 =>
    (sprite.get p.1 % 256).toNat.testBit (7 - p.2.val) = true ∧
      (s.draw x y (sprite.take p.1)).2.pixel (x + p.2.val) (y + p.1.val) = true).card

theorem setBits_cons (v : Int) (rest : List Int) :
    setBits (v :: rest) =
      (Finset.univ.filter fun j => bitAt (lowByte v) j = true).card + setBits rest := by
  simp only [bitAt_lowByte]
  exact card_places_succ _

theorem exists_bitAt_iff {b : UInt8} : (∃ j, bitAt b j = true) ↔ b ≠ 0 := by
  constructor
  · rintro ⟨j, hj⟩ rfl
    simp [bitAt] at hj
  · intro hb
    by_contra hnone
    refine hb (UInt8.toNat_inj.1 (Nat.eq_of_testBit_eq fun i => ?_))
    rw [UInt8.toNat_zero, Nat.zero_testBit]
    rcases Nat.lt_or_ge i 8 with hi | hi
    · have hj : 7 - (7 - i) = i := by omega
      rw [Bool.eq_false_iff]
      intro hset
      exact hnone ⟨⟨7 - i, by omega⟩, by rwa [bitAt, hj]⟩
    · refine Nat.testBit_lt_two_pow (b.toNat_lt.trans_le ?_)
      exact Nat.pow_le_pow_right Nat.zero_lt_two hi

theorem setBits_pos_iff {sprite : List Int} : 0 < setBits sprite ↔ ∃ v ∈ sprite, v % 256 ≠ 0 := by
  induction sprite with
  | nil => simp [setBits]
  | cons v rest ih =>
    rw [setBits_cons, Nat.add_pos_iff_pos_or_pos, ih, Finset.card_pos, Finset.filter_nonempty_iff]
    simp only [Finset.mem_univ, true_and, exists_bitAt_iff, ne_eq, lowByte_eq_zero_iff,
      List.mem_cons, exists_eq_or_imp]

theorem count_true_eq_sum (l : List Bool) : l.count true = (l.map Bool.toNat).sum := by
  induction l with
  | nil => rfl
  | cons b l ih => cases b <;> simp [ih, Nat.add_comm]

theorem toList_eq_ofFn {α : Type} {n : Nat} (v : Vector α n) :
    v.toList = List.ofFn fun i : Fin n => v[i] :=
  List.ext_getElem (by simp) fun i _ _ => by simp

theorem litCount_eq_sum (s : Screen) : s.litCount = ∑ r, ∑ c, (s.get c r).toNat := by
  rw [litCount, List.count_flatMap, toList_eq_ofFn, List.map_ofFn, List.sum_ofFn]
  refine Finset.sum_congr rfl fun r _ => ?_
  rw [Function.comp_apply, Function.comp_apply, count_true_eq_sum, toList_eq_ofFn, List.map_ofFn,
    List.sum_ofFn]
  rfl

/-! ## One byte -/

theorem columnAt_eq_column (x : Int) (j : Fin 8) : columnAt x j = column (x + j.val) :=
  columnAt_eq_iff.2 (column_eq_iff.1 rfl)

/-- How many lit pixels a byte puts out. -/
def putOutByte (s : Screen) (x y : Int) (bits : UInt8) : Nat :=
  (Finset.univ.filter fun j => bitAt bits j = true ∧ s.pixel (x + j.val) y = true).card

/-- The pixels of a kind that a byte covers are as many as its set bits that fall on such pixels. -/
theorem sum_covers (x y : Int) (bits : UInt8) (kind : Fin 64 → Fin 32 → Bool) :
    ∑ r, ∑ c, ((row y == r && covers x bits c) && kind c r).toNat =
      (Finset.univ.filter fun j =>
        bitAt bits j = true ∧ kind (column (x + j.val)) (row y) = true).card := by
  -- Different bits fall on different pixels.
  have hinj : Function.Injective fun j => (row y, columnAt x j) := fun j k h =>
    columnAt_injective x (Prod.mk.inj h).2
  have himage : (Finset.univ.filter fun p : Fin 32 × Fin 64 =>
      ((row y == p.1 && covers x bits p.2) && kind p.2 p.1) = true) =
      (Finset.univ.filter fun j => bitAt bits j = true ∧
        kind (column (x + j.val)) (row y) = true).image fun j => (row y, columnAt x j) := by
    ext ⟨r, c⟩
    simp only [Finset.mem_filter, Finset.mem_univ, true_and, Finset.mem_image, Bool.and_eq_true,
      beq_iff_eq, covers_eq_true_iff, Prod.mk.injEq, ← columnAt_eq_column]
    constructor
    · rintro ⟨⟨rfl, j, rfl, hb⟩, hkind⟩
      exact ⟨j, ⟨hb, hkind⟩, rfl, rfl⟩
    · rintro ⟨j, ⟨hb, hkind⟩, rfl, rfl⟩
      exact ⟨⟨rfl, j, rfl, hb⟩, hkind⟩
  rw [← Finset.card_image_of_injective _ hinj, ← himage, Finset.card_filter, Fintype.sum_prod_type]
  refine Finset.sum_congr rfl fun r _ => Finset.sum_congr rfl fun c _ => ?_
  cases (row y == r && covers x bits c) && kind c r <;> rfl

/-- Each set bit of a byte lights a pixel or puts one out. -/
theorem litCount_drawByte (s : Screen) (x y : Int) (bits : UInt8) :
    (s.drawByte x y bits).2.litCount + 2 * s.putOutByte x y bits =
      s.litCount + (Finset.univ.filter fun j => bitAt bits j = true).card := by
  have hout : s.putOutByte x y bits = _ := (sum_covers x y bits s.get).symm
  have hset := sum_covers x y bits fun _ _ => true
  simp only [and_true, Bool.and_true] at hset
  rw [hout, ← hset, litCount_eq_sum, litCount_eq_sum, Finset.mul_sum, ← Finset.sum_add_distrib,
    ← Finset.sum_add_distrib]
  refine Finset.sum_congr rfl fun r _ => ?_
  rw [Finset.mul_sum, ← Finset.sum_add_distrib, ← Finset.sum_add_distrib]
  refine Finset.sum_congr rfl fun c _ => ?_
  rw [get_drawByte]
  cases s.get c r <;> cases row y == r && covers x bits c <;> rfl

/-- A byte tells whether it puts out a pixel. -/
theorem drawByte_fst (s : Screen) (x y : Int) (bits : UInt8) :
    (s.drawByte x y bits).1 = decide (0 < s.putOutByte x y bits) := by
  rw [Bool.eq_iff_iff, decide_eq_true_eq, putOutByte, Finset.card_pos]
  simp only [drawByte, List.any_eq_true, Bool.and_eq_true, Finset.filter_nonempty_iff,
    Finset.mem_univ, true_and, List.mem_finRange, columnAt_eq_column, and_comm]
  rfl

theorem drawByte_zero (s : Screen) (x y : Int) : s.drawByte x y 0 = (false, s) := by
  refine Prod.ext ?_ (ext fun c r => ?_)
  · rw [Bool.eq_false_iff, ne_eq, drawByte_hit_iff]
    rintro ⟨c, r, hc, -⟩
    rw [covers_zero, Bool.and_false] at hc
    cases hc
  · rw [get_drawByte, covers_zero, Bool.and_false, Bool.xor_false]

/-! ## Whole sprites -/

section InRange

variable {x : Int} (hx : inRange x = true) (s : Screen) (y : Int)

include hx

/-- At a column in range all bytes are drawn alike, as a zero byte changes nothing. -/
theorem draw_cons (v : Int) (rest : List Int) :
    s.draw x y (v :: rest) =
      (((s.drawByte x y (lowByte v)).2.draw x (y + 1) rest).1.map
        ((s.drawByte x y (lowByte v)).1 || ·),
       ((s.drawByte x y (lowByte v)).2.draw x (y + 1) rest).2) := by
  rw [draw]
  split
  · rename_i hv
    rw [hv, drawByte_zero]
    refine Prod.ext ?_ rfl
    cases (s.draw x (y + 1) rest).1 <;> rfl
  · rfl

theorem putOut_cons (v : Int) (rest : List Int) :
    s.putOut x y (v :: rest) =
      s.putOutByte x y (lowByte v) + (s.drawByte x y (lowByte v)).2.putOut x (y + 1) rest := by
  have hy (k : Nat) : y + ((k + 1 : Nat) : Int) = y + 1 + k := by omega
  refine (card_places_succ _).trans ?_
  congr 1
  · simp [putOutByte, bitAt_lowByte, draw]
  · simp only [Fin.val_succ, List.take_succ_cons, draw_cons hx, hy]
    rfl

/-- Each set bit of a sprite lights a pixel or puts one out. -/
theorem litCount_draw (sprite : List Int) :
    (s.draw x y sprite).2.litCount + 2 * s.putOut x y sprite = s.litCount + setBits sprite := by
  induction sprite generalizing s y with
  | nil => rfl
  | cons v rest ih =>
    have hbyte := s.litCount_drawByte x y (lowByte v)
    have hrest := ih (s.drawByte x y (lowByte v)).2 (y + 1)
    simp only [draw_cons hx, putOut_cons hx, setBits_cons]
    omega

/-- Drawing tells whether it puts out a pixel. -/
theorem draw_fst (sprite : List Int) :
    (s.draw x y sprite).1 = .ok (decide (0 < s.putOut x y sprite)) := by
  induction sprite generalizing s y with
  | nil => rfl
  | cons v rest ih =>
    rw [draw_cons hx, ih, putOut_cons hx, drawByte_fst]
    simp only [Except.map, Nat.add_pos_iff_pos_or_pos, Bool.decide_or]

theorem get_draw (sprite : List Int) (c : Fin 64) (r : Fin 32) :
    (s.draw x y sprite).2.get c r = (s.get c r ^^ decide (coverage x y sprite c r % 2 = 1)) := by
  obtain ⟨hit, drawn, hdraw, hget, -⟩ := draw_inRange hx s y sprite
  rw [hdraw]
  exact hget c r

/-- A sprite drawn twice leaves the screen as it was. -/
theorem draw_draw_snd (sprite : List Int) :
    ((s.draw x y sprite).2.draw x y sprite).2 = s := by
  refine ext fun c r => ?_
  rw [get_draw hx, get_draw hx, Bool.xor_assoc, Bool.xor_self, Bool.xor_false]

theorem draw_draw_snd_comm {x' : Int} (hx' : inRange x' = true) (y' : Int) (a b : List Int) :
    ((s.draw x y a).2.draw x' y' b).2 = ((s.draw x' y' b).2.draw x y a).2 := by
  refine ext fun c r => ?_
  rw [get_draw hx', get_draw hx, get_draw hx, get_draw hx', Bool.xor_right_comm]

end InRange

/-- A sprite of two parts is drawn as the first one and then the second one below it. -/
theorem draw_append {x y : Int} {s mid after : Screen} {a b : List Int} {hit hit' : Bool}
    (h : s.draw x y a = (.ok hit, mid)) (h' : mid.draw x (y + a.length) b = (.ok hit', after)) :
    s.draw x y (a ++ b) = (.ok (hit || hit'), after) := by
  induction a generalizing s y hit with
  | nil =>
    cases h
    rwa [List.length_nil, Int.natCast_zero, Int.add_zero] at h'
  | cons v rest ih =>
    have hy : y + ((v :: rest).length : Int) = y + 1 + rest.length := by
      rw [List.length_cons]
      omega
    rw [hy] at h'
    rw [List.cons_append]
    unfold draw at h ⊢
    split at h
    · rename_i hv
      rw [if_pos hv]
      exact ih h h'
    · rename_i hv
      rw [if_neg hv]
      split at h
      · rename_i hx
        rw [if_pos hx]
        rcases hrest : (s.drawByte x y (lowByte v)).2.draw x (y + 1) rest with ⟨_ | hits, drawn⟩
        · simp [hrest, Except.map] at h
        · simp only [hrest, Except.map, Prod.mk.injEq, Except.ok.injEq] at h
          obtain ⟨rfl, rfl⟩ := h
          simp only [ih hrest h', Except.map, Bool.or_assoc]
      · cases h

/-- Drawing a sprite twice at one place restores the screen, and puts out a pixel unless all bytes
are zero. Two sprites give the same screen in either order. A sprite of two parts is drawn as the
first one and then the second one below it. And each set bit lights a pixel or puts one out, so that
drawing puts none out exactly if it lights as many pixels as there are set bits. -/
theorem draw_undoes_commutes_splits_counts (g : Screen) {x x' : Int}
    (hx : -2 ^ 63 ≤ x ∧ x < 2 ^ 63) (hx' : -2 ^ 63 ≤ x' ∧ x' < 2 ^ 63) (y y' : Int)
    (s t : List Int) :
    (∃ hit hit' mid, g.draw x y s = (.ok hit, mid) ∧ mid.draw x y s = (.ok hit', g) ∧
      (hit = true ∨ hit' = true ↔ ∃ v ∈ s, v % 256 ≠ 0)) ∧
    (∃ hit₁ hit₂ hit₃ hit₄ mid mid' after,
      g.draw x y s = (.ok hit₁, mid) ∧ mid.draw x' y' t = (.ok hit₂, after) ∧
      g.draw x' y' t = (.ok hit₃, mid') ∧ mid'.draw x y s = (.ok hit₄, after)) ∧
    (∃ hit hit' mid after, g.draw x y s = (.ok hit, mid) ∧
      mid.draw x (y + s.length) t = (.ok hit', after) ∧
      g.draw x y (s ++ t) = (.ok (hit || hit'), after)) ∧
    ∃ hit after, g.draw x y s = (.ok hit, after) ∧
      after.litCount + 2 * g.putOut x y s = g.litCount + setBits s ∧
      (hit = true ↔ 0 < g.putOut x y s) ∧
      (hit = false ↔ after.litCount = g.litCount + setBits s) := by
  rw [← inRange_eq_true_iff] at hx hx'
  have hdraw (k : Screen) (y : Int) (sprite : List Int) :
      k.draw x y sprite = (.ok (decide (0 < k.putOut x y sprite)), (k.draw x y sprite).2) :=
    Prod.ext (draw_fst hx k y sprite) rfl
  have hdraw' (k : Screen) (y : Int) (sprite : List Int) :
      k.draw x' y sprite = (.ok (decide (0 < k.putOut x' y sprite)), (k.draw x' y sprite).2) :=
    Prod.ext (draw_fst hx' k y sprite) rfl
  have hcount := litCount_draw hx g y s
  refine ⟨?_, ?_, ?_, ?_⟩
  · have htwice := hdraw (g.draw x y s).2 y s
    rw [draw_draw_snd hx] at htwice
    refine ⟨_, _, _, hdraw g y s, htwice, ?_⟩
    -- The second drawing puts out what the first one has lit.
    have hcount' := litCount_draw hx (g.draw x y s).2 y s
    rw [draw_draw_snd hx] at hcount'
    rw [decide_eq_true_eq, decide_eq_true_eq, ← setBits_pos_iff]
    omega
  · have hlast := hdraw (g.draw x' y' t).2 y s
    rw [← draw_draw_snd_comm hx g y hx'] at hlast
    exact ⟨_, _, _, _, _, _, _, hdraw g y s, hdraw' _ y' t, hdraw' g y' t, hlast⟩
  · exact ⟨_, _, _, _, hdraw g y s, hdraw _ _ t, draw_append (hdraw g y s) (hdraw _ _ t)⟩
  · refine ⟨_, _, hdraw g y s, hcount, decide_eq_true_iff, ?_⟩
    rw [decide_eq_false_iff_not]
    omega

theorem litCount_blank : blank.litCount = 0 := by simp [litCount_eq_sum]

/-- Two pixels in opposite corners of the last row, by a byte whose upper bits do not count. -/
theorem draw_twice_around_edge :
    ∃ hit hit' mid, blank.draw (2 ^ 63 - 1) (-1) [0x1C0] = (.ok hit, mid) ∧
      mid.draw (2 ^ 63 - 1) (-1) [0x1C0] = (.ok hit', blank) ∧ (hit = true ∨ hit' = true) ∧
      mid.litCount + 2 * blank.putOut (2 ^ 63 - 1) (-1) [0x1C0] = 2 ∧
      (mid.draw (-2 ^ 63) 31 [0x80]).2 =
        ((blank.draw (-2 ^ 63) 31 [0x80]).2.draw (2 ^ 63 - 1) (-1) [0x1C0]).2 := by
  have hlast : -2 ^ 63 ≤ (2 ^ 63 - 1 : Int) ∧ (2 ^ 63 - 1 : Int) < 2 ^ 63 := by decide
  have hfirst : -2 ^ 63 ≤ (-2 ^ 63 : Int) ∧ (-2 ^ 63 : Int) < 2 ^ 63 := by decide
  obtain ⟨⟨hit, hit', mid, hmid, hback, hhit⟩, ⟨_, _, _, _, mid₁, mid₂, both, h₁, h₂, h₃, h₄⟩, -,
      _, after, hafter, hcount, -⟩ :=
    draw_undoes_commutes_splits_counts blank hlast hfirst (-1) 31 [0x1C0] [0x80]
  obtain rfl : mid = after := congrArg Prod.snd (hmid.symm.trans hafter)
  obtain rfl : mid = mid₁ := congrArg Prod.snd (hmid.symm.trans h₁)
  have hset : setBits [0x1C0] = 2 := by decide
  rw [litCount_blank, hset, Nat.zero_add] at hcount
  refine ⟨hit, hit', mid, hmid, hback, hhit.2 (by decide), hcount, ?_⟩
  rw [h₂, h₃, h₄]

end ChipVm.Screen
