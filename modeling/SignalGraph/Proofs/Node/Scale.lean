import SignalGraph.Proofs.Node.Accepted

/-!
# The range of a linear mapping

A linear mapping with a limited output is limited before it is rounded. So the output lies between
the ends of the output range rounded to the same decimals, and it is NaN only where the mapping
itself overflows (`Scale.output_between`). Rounding may well take it out of the range
(`Scale.leaves_range`).
-/

namespace SignalGraph

open Decimal Float.Model Float.Model.UnpackedFloat

/-! ### Limiting -/

namespace Decimal

variable {x y low high : Float}

/-- The number is limited to the interval. -/
theorem limit_mem (hlow : low.isNaN = false) (hhigh : high.isNaN = false) (h : low ≤ high)
    (hx : x.isNaN = false) : low ≤ limit x low high ∧ limit x low high ≤ high := by
  have hraised : (if x < low then low else x).isNaN = false ∧ low ≤ if x < low then low else x := by
    split_ifs with hlt
    · exact ⟨hlow, le_refl hlow⟩
    · exact ⟨hx, le_of_not_lt hlow hx hlt⟩
  unfold limit
  generalize (if x < low then low else x) = raised at hraised ⊢
  dsimp only
  split
  · exact ⟨h, le_refl hhigh⟩
  · next hle => exact ⟨hraised.2, le_of_not_lt hraised.1 hhigh hle⟩

theorem isNaN_limit (hlow : low.isNaN = false) (hhigh : high.isNaN = false)
    (hx : x.isNaN = false) : (limit x low high).isNaN = false := by
  unfold limit
  dsimp only
  split_ifs <;> assumption

theorem isNaN_lesser (hx : x.isNaN = false) (hy : y.isNaN = false) :
    (lesser x y).isNaN = false := by
  obtain h | h := lesser_eq_or x y <;> rwa [h]

theorem isNaN_greater (hx : x.isNaN = false) (hy : y.isNaN = false) :
    (greater x y).isNaN = false := by
  obtain h | h := greater_eq_or x y <;> rwa [h]

theorem value_lesser (hx : x.isNaN = false) (hy : y.isNaN = false) :
    value (lesser x y) = min (value x) (value y) := by
  rw [lesser_of_not_isNaN hy]
  split
  · next hlt => exact (min_eq_left ((lt_iff_value_lt hx hy).1 hlt).le).symm
  · next hle => exact (min_eq_right (not_lt.1 (mt (lt_iff_value_lt hx hy).2 hle))).symm

theorem value_greater (hx : x.isNaN = false) (hy : y.isNaN = false) :
    value (greater x y) = max (value x) (value y) := by
  rw [greater_of_not_isNaN hy]
  split
  · next hlt => exact (max_eq_left ((lt_iff_value_lt hy hx).1 hlt).le).symm
  · next hle => exact (max_eq_right (not_lt.1 (mt (lt_iff_value_lt hy hx).2 hle))).symm

end Decimal

/-! ### The mapping -/

namespace Scale

variable {s : Scale} {x y : Float}

/-- The mapping gives a number as long as its product is finite. -/
theorem isNaN_linear (hs : s.Sound)
    (hfinite : ((x - s.inLow) * (s.outHigh - s.outLow)).isFinite = true) :
    (s.linear x).isNaN = false := by
  obtain ⟨hoffset, hrange⟩ := isFinite_of_mul hfinite
  have hspan : (s.inHigh - s.inLow).isNaN = false :=
    isNaN_sub hs.inHigh (isFinite_of_sub hoffset).2
  unfold linear
  dsimp only
  split
  · exact hs.outLow
  · next hzero =>
    exact isNaN_add (isFinite_of_sub hrange).2
      (isNaN_div hfinite hspan (Bool.eq_false_iff.2 hzero))

/-- Limiting is done between the ends of the output range, in their order. -/
theorem clamped_eq_limit (hs : s.Sound) (hclamp : s.clamp = true) :
    ∃ low high, (∀ y, s.clamped y = limit y low high) ∧ low.isNaN = false ∧ high.isNaN = false ∧
      low ≤ high ∧ value low = value (lesser s.outLow s.outHigh) ∧
      value high = value (greater s.outLow s.outHigh) := by
  rw [value_lesser hs.outLow hs.outHigh, value_greater hs.outLow hs.outHigh]
  unfold clamped
  by_cases hle : s.outLow ≤ s.outHigh
  · have hvalue := (le_iff_value_le hs.outLow hs.outHigh).1 hle
    refine ⟨s.outLow, s.outHigh, fun y => ?_, hs.outLow, hs.outHigh, hle,
      (min_eq_left hvalue).symm, (max_eq_right hvalue).symm⟩
    rw [hclamp, if_neg (by decide), if_pos hle]
  · have hvalue := (not_le.1 (mt (le_iff_value_le hs.outLow hs.outHigh).2 hle)).le
    refine ⟨s.outHigh, s.outLow, fun y => ?_, hs.outHigh, hs.outLow,
      (le_iff_value_le hs.outHigh hs.outLow).2 hvalue, (min_eq_right hvalue).symm,
      (max_eq_left hvalue).symm⟩
    rw [hclamp, if_neg (by decide), if_neg hle]

/-- A limited number lies within the output range. -/
theorem clamped_mem (hs : s.Sound) (hclamp : s.clamp = true) (hy : y.isNaN = false) :
    (s.clamped y).isNaN = false ∧ lesser s.outLow s.outHigh ≤ s.clamped y ∧
      s.clamped y ≤ greater s.outLow s.outHigh := by
  obtain ⟨low, high, heq, hlow, hhigh, hle, hleast, hmost⟩ := clamped_eq_limit hs hclamp
  obtain ⟨habove, hbelow⟩ := limit_mem hlow hhigh hle hy
  have hnumber := isNaN_limit hlow hhigh hy
  rw [heq y]
  refine ⟨hnumber, ?_, ?_⟩
  · rw [le_iff_value_le (isNaN_lesser hs.outLow hs.outHigh) hnumber, ← hleast]
    exact (le_iff_value_le hlow hnumber).1 habove
  · rw [le_iff_value_le hnumber (isNaN_greater hs.outLow hs.outHigh), ← hmost]
    exact (le_iff_value_le hnumber hhigh).1 hbelow

/-- The output is NaN just where the linear mapping is. -/
theorem isNaN_apply (hs : s.Sound) (hclamp : s.clamp = true) (x : Float) :
    (s.apply x).isNaN = (s.linear x).isNaN := by
  have hclamped : (s.clamped (s.linear x)).isNaN = (s.linear x).isNaN := by
    cases hx : (s.linear x).isNaN with
    | false => exact (clamped_mem hs hclamp hx).1
    | true =>
      obtain ⟨low, high, heq, -⟩ := clamped_eq_limit hs hclamp
      rw [heq, limit_of_isNaN hx, hx]
  rw [← hclamped]
  unfold apply
  dsimp only
  split
  · next d hd =>
    cases hy : (s.clamped (s.linear x)).isNaN with
    | false => exact isNaN_roundTo (hs.decimals d hd) hy
    | true => exact isNaN_roundTo_of_isNaN hy d
  · rfl

/-- The output of a limited linear mapping lies between the ends of the output range, rounded as
the output is. It is NaN only where the product of the mapping is not finite. -/
theorem output_between {p : Params} (h : ofParams p = .ok s) (hclamp : s.clamp = true) {a : Value}
    (ha : a.number? = some x) :
    ∃ y, s.output? a = some (.num y) ∧
      (y.isNaN = true → ((x - s.inLow) * (s.outHigh - s.outLow)).isFinite = false) ∧
      (y.isNaN = false →
        (s.decimals = none → lesser s.outLow s.outHigh ≤ y ∧ y ≤ greater s.outLow s.outHigh) ∧
        ∀ d, s.decimals = some d →
          roundTo (lesser s.outLow s.outHigh) d ≤ y ∧
            y ≤ roundTo (greater s.outLow s.outHigh) d) := by
  have hs := sound_of_ofParams h
  refine ⟨s.apply x, by rw [output?, ha, Option.map_some], fun hnan => ?_, fun hnumber => ?_⟩
  · rw [isNaN_apply hs hclamp] at hnan
    refine Bool.eq_false_iff.2 fun hfinite => ?_
    rw [isNaN_linear hs hfinite] at hnan
    cases hnan
  · rw [isNaN_apply hs hclamp] at hnumber
    obtain ⟨hclamped, habove, hbelow⟩ := clamped_mem hs hclamp hnumber
    refine ⟨fun hd => ?_, fun d hd => ?_⟩
    · rw [apply, hd]
      exact ⟨habove, hbelow⟩
    · have hten := hs.decimals d hd
      rw [apply, hd]
      exact ⟨roundTo_le_roundTo hten (isNaN_lesser hs.outLow hs.outHigh) hclamped habove,
        roundTo_le_roundTo hten hclamped (isNaN_greater hs.outLow hs.outHigh) hbelow⟩

/-- A falling output range. -/
def fallingParams : Params where
  node := "dimmer"
  table := [("out_min", .str "0,75"), ("out_max", .float 0.25), ("clamp", .bool true),
    ("decimals", .int 1)]

def falling : Scale where
  inLow := 0.0
  inHigh := 100.0
  outLow := 0.75
  outHigh := 0.25
  clamp := true
  decimals := some 1

/-- A text with a number beyond the input range is mapped to the lower end, which is rounded up. -/
theorem output_between_falling : ofParams fallingParams = .ok falling ∧
    ∃ y, falling.output? (.str "140") = some (.num y) ∧ 0.3 ≤ y ∧ y ≤ 0.8 := by
  have hparams : ofParams fallingParams = .ok falling := by rfl
  have hinput : (Value.str "140").number? = some 140.0 := by rfl
  obtain ⟨y, houtput, hnan, hnumber⟩ := output_between hparams rfl hinput
  have hfinite :
      ((140.0 - falling.inLow) * (falling.outHigh - falling.outLow)).isFinite = true := by
    decide +kernel
  have hy : y.isNaN = false := Bool.eq_false_iff.2 fun h => by
    rw [hnan h] at hfinite
    cases hfinite
  obtain ⟨habove, hbelow⟩ := (hnumber hy).2 1 rfl
  have hlow : roundTo (lesser falling.outLow falling.outHigh) 1 = 0.3 := by decide +kernel
  have hhigh : roundTo (greater falling.outLow falling.outHigh) 1 = 0.8 := by decide +kernel
  exact ⟨hparams, y, houtput, hlow ▸ habove, hhigh ▸ hbelow⟩

/-- An output range that ends between two numbers with one decimal. -/
def fineParams : Params where
  node := "dimmer"
  table := [("out_max", .float 0.05), ("clamp", .bool true), ("decimals", .int 1)]

def fine : Scale where
  inLow := 0.0
  inHigh := 100.0
  outLow := 0.0
  outHigh := 0.05
  clamp := true
  decimals := some 1

/-- A limited mapping of the range from `low` to `high`. -/
def wideParams (low high : Float) : Params where
  node := "dimmer"
  table := [("in_min", .float low), ("in_max", .float high), ("clamp", .bool true)]

def wide (low high : Float) : Scale where
  inLow := low
  inHigh := high
  outLow := 0.0
  outHigh := 100.0
  clamp := true
  decimals := none

theorem ofParams_wide {low high : Float} (hlow : low.isFinite = true)
    (hhigh : high.isFinite = true) : ofParams (wideParams low high) = .ok (wide low high) := by
  have hin : (wideParams low high).number? "in_min" = .ok (some low) := if_pos hlow
  have hout : (wideParams low high).number? "in_max" = .ok (some high) := if_pos hhigh
  have hranges : readRanges (wideParams low high) = .ok (low, high, 0.0, 100.0) := by
    change customRanges (wideParams low high) = _
    rw [customRanges, Params.numberOr, Params.numberOr, hin, hout]
    rfl
  rw [ofParams, hranges]
  rfl

/-- The largest input is mapped to the end of the output range and rounded beyond it; and where the
width of the input range overflows, the mapping gives NaN, which is not limited. -/
theorem leaves_range :
    (ofParams fineParams = .ok fine ∧ fine.output? (.num 100.0) = some (.num 0.1) ∧
      ¬ 0.1 ≤ greater fine.outLow fine.outHigh) ∧
    ofParams (wideParams (-1.7e308) 1.7e308) = .ok (wide (-1.7e308) 1.7e308) ∧
      ∃ y, (wide (-1.7e308) 1.7e308).output? (.num 0.0) = some (.num y) ∧ y.isNaN = true ∧
        ¬ y ≤ greater (wide (-1.7e308) 1.7e308).outLow (wide (-1.7e308) 1.7e308).outHigh := by
  have hfine : fine.apply 100.0 = 0.1 := by decide +kernel
  refine ⟨⟨by rfl, congrArg (fun y => some (Value.num y)) hfine, by decide +kernel⟩,
    ofParams_wide (by decide +kernel) (by decide +kernel), (wide (-1.7e308) 1.7e308).apply 0.0, rfl,
    ?_, ?_⟩
  all_goals decide +kernel

end Scale

end SignalGraph
