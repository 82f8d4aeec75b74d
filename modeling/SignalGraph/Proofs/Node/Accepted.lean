import SignalGraph.Proofs.Decimal.Monotone
import SignalGraph.Proofs.Node.Counting
import SignalGraph.Proofs.Node.Hours

/-!
# What accepted parameters guarantee

The checks of the parameters are made once, when a node is built. They leave a node with bounds that
are numbers and in their order, and with at most ten decimals: `Clamp.low_le_high`,
`Scale.sound_of_ofParams`, `ImpulseCounter.decimals_le` and `HourMeter.decimals_le`. Durations are
words of 64 bits (`Params.durationOr_lt`).
-/

namespace SignalGraph

open Decimal

namespace Params

variable {p : Params} {key : String}

/-- A parameter with a default other than NaN is never NaN. -/
theorem isNaN_of_numberOr {default x : Float} (hdefault : default.isNaN = false)
    (h : p.numberOr key default = .ok x) : x.isNaN = false := by
  obtain ⟨found, hfound, h⟩ := exists_of_bind_eq_ok h
  cases h
  cases found with
  | none => exact hdefault
  | some y => exact isNaN_of_number? hfound

/-- A number of decimals is at most ten. -/
theorem decimals_le {d : Nat} (h : p.decimals? key = .ok (some d)) : d ≤ 10 := by
  obtain ⟨found, hfound, h⟩ := exists_of_bind_eq_ok h
  cases found with
  | none => cases h
  | some x =>
    have hx := isNaN_of_number? hfound
    dsimp only at h
    split at h
    · next hchecks =>
      cases h
      simp only [Bool.and_eq_true, decide_eq_true_eq] at hchecks
      obtain ⟨⟨hlow, hhigh⟩, -⟩ := hchecks
      have hnonneg : 0 ≤ value x := by
        rw [← value_zero]
        exact (le_iff_value_le rfl hx).1 hlow
      have hten : value x ≤ 10 := by
        rw [← value_ten]
        exact (le_iff_value_le hx rfl).1 hhigh
      have hwhole := toNat_toUInt64 hnonneg (hten.trans_lt (by norm_num))
      have hfloor : ⌊value x⌋ ≤ 10 := by
        have hmono := Int.floor_le_floor hten
        rwa [Int.floor_ofNat] at hmono
      omega
    · cases h

end Params

variable {p : Params}

/-- The bounds of a limitation are in their order, and so neither is NaN. -/
theorem Clamp.low_le_high {c : Clamp} (h : ofParams p = .ok c) : c.low ≤ c.high := by
  obtain ⟨low, hlow, h⟩ := exists_of_bind_eq_ok h
  obtain ⟨high, hhigh, h⟩ := exists_of_bind_eq_ok h
  split at h
  · cases h
  · next hordered =>
    cases h
    exact le_of_not_lt (Params.isNaN_of_numberOr rfl hlow) (Params.isNaN_of_numberOr rfl hhigh)
      hordered

/-- What is known of a linear mapping. -/
structure Scale.Sound (s : Scale) : Prop where
  inLow : s.inLow.isNaN = false
  inHigh : s.inHigh.isNaN = false
  outLow : s.outLow.isNaN = false
  outHigh : s.outHigh.isNaN = false
  decimals : ∀ d, s.decimals = some d → d ≤ 10

/-- Ranges without NaN. -/
def Scale.Ranges.Proper : Scale.Ranges → Prop
  | (inLow, inHigh, outLow, outHigh) =>
    inLow.isNaN = false ∧ inHigh.isNaN = false ∧ outLow.isNaN = false ∧ outHigh.isNaN = false

theorem Scale.proper_customRanges {ranges : Ranges} (h : customRanges p = .ok ranges) :
    ranges.Proper := by
  obtain ⟨inLow, hinLow, h⟩ := exists_of_bind_eq_ok h
  obtain ⟨inHigh, hinHigh, h⟩ := exists_of_bind_eq_ok h
  obtain ⟨outLow, houtLow, h⟩ := exists_of_bind_eq_ok h
  obtain ⟨outHigh, houtHigh, h⟩ := exists_of_bind_eq_ok h
  cases h
  exact ⟨Params.isNaN_of_numberOr rfl hinLow, Params.isNaN_of_numberOr rfl hinHigh,
    Params.isNaN_of_numberOr rfl houtLow, Params.isNaN_of_numberOr rfl houtHigh⟩

theorem Scale.proper_presets : ∀ preset ∈ presets, preset.2.Proper := by
  intro preset hpreset
  simp only [presets, List.mem_cons, List.not_mem_nil, or_false] at hpreset
  rcases hpreset with rfl | rfl | rfl | rfl | rfl <;> exact ⟨rfl, rfl, rfl, rfl⟩

theorem Scale.proper_readRanges {ranges : Ranges} (h : readRanges p = .ok ranges) :
    ranges.Proper := by
  obtain ⟨name, -, h⟩ := exists_of_bind_eq_ok h
  cases name with
  | none => exact proper_customRanges h
  | some name =>
    dsimp only at h
    split at h
    · exact proper_customRanges h
    · cases hfind : presets.find? (fun preset => preset.1 == name) with
      | none =>
        rw [hfind] at h
        cases h
      | some preset =>
        rw [hfind] at h
        cases h
        exact proper_presets _ (List.mem_of_find?_eq_some hfind)

theorem Scale.sound_of_ofParams {s : Scale} (h : ofParams p = .ok s) : s.Sound := by
  obtain ⟨ranges, hranges, h⟩ := exists_of_bind_eq_ok h
  obtain ⟨inLow, inHigh, outLow, outHigh⟩ := ranges
  obtain ⟨clamp, -, h⟩ := exists_of_bind_eq_ok h
  obtain ⟨decimals, hdecimals, h⟩ := exists_of_bind_eq_ok h
  cases h
  obtain ⟨hinLow, hinHigh, houtLow, houtHigh⟩ := proper_readRanges hranges
  exact ⟨hinLow, hinHigh, houtLow, houtHigh, fun d hd =>
    Params.decimals_le (hdecimals.trans (congrArg Except.ok hd))⟩

/-- Decimals by default, if the default is at most ten. -/
theorem Params.getD_decimals_le {decimals : Option Nat} {key : String} {default : Nat}
    (hdefault : default ≤ 10) (h : p.decimals? key = .ok decimals) :
    decimals.getD default ≤ 10 := by
  cases decimals with
  | none => exact hdefault
  | some d => exact decimals_le h

theorem ImpulseCounter.decimals_le {c : ImpulseCounter} (h : ofParams p = .ok c) :
    c.decimals ≤ 10 := by
  obtain ⟨factor, -, h⟩ := exists_of_bind_eq_ok h
  obtain ⟨decimals, hdecimals, h⟩ := exists_of_bind_eq_ok h
  cases h
  exact Params.getD_decimals_le (by decide) hdecimals

theorem HourMeter.decimals_le {m : HourMeter} (h : ofParams p = .ok m) : m.decimals ≤ 10 := by
  obtain ⟨decimals, -, hdecimals, heq⟩ := of_ofParams h
  rw [heq]
  exact Params.getD_decimals_le (by decide) hdecimals

/-! ### Durations -/

/-- A duration is a word of 64 bits. -/
theorem Params.durationOr_lt {p : Params} {key : String} {default d : Nat}
    (hdefault : default < 2 ^ 64) (h : p.durationOr key default = .ok d) : d < 2 ^ 64 := by
  obtain ⟨found, -, h⟩ := exists_of_bind_eq_ok h
  cases found with
  | none =>
    cases h
    exact hdefault
  | some x =>
    dsimp only at h
    split at h
    · cases h
      exact UInt64.toNat_lt _
    · cases h

theorem EdgeDetector.pulse_lt {fixed : Option EdgeKind} {e : EdgeDetector}
    (h : ofParams p fixed = .ok e) : e.pulse < 2 ^ 64 := by
  unfold ofParams at h
  cases fixed with
  | some _ | none =>
    obtain ⟨kind, -, h⟩ := exists_of_bind_eq_ok h
    obtain ⟨pulse, hpulse, h⟩ := exists_of_bind_eq_ok h
    cases h
    exact Params.durationOr_lt (by decide) hpulse

theorem DelayOn.delay_lt {d : DelayOn} (h : ofParams p = .ok d) : d.delay < 2 ^ 64 := by
  obtain ⟨delay, hdelay, h⟩ := exists_of_bind_eq_ok h
  cases h
  exact Params.durationOr_lt (by decide) hdelay

theorem DelayOff.hold_lt {key : String} {d : DelayOff} (h : ofParams p key = .ok d) :
    d.hold < 2 ^ 64 := by
  obtain ⟨hold, hhold, h⟩ := exists_of_bind_eq_ok h
  cases h
  exact Params.durationOr_lt (by decide) hhold

theorem Pulse.duration_lt {q : Pulse} (h : ofParams p = .ok q) : q.duration < 2 ^ 64 := by
  obtain ⟨duration, hduration, h⟩ := exists_of_bind_eq_ok h
  obtain ⟨kind, -, h⟩ := exists_of_bind_eq_ok h
  cases h
  exact Params.durationOr_lt (by decide) hduration

theorem Staircase.duration_lt {s : Staircase} (h : ofParams p = .ok s) : s.duration < 2 ^ 64 := by
  obtain ⟨duration, hduration, h⟩ := exists_of_bind_eq_ok h
  cases h
  exact Params.durationOr_lt (by decide) hduration

theorem OutputBridge.interval_lt {b : OutputBridge} (h : ofParams p = .ok b) :
    b.interval < 2 ^ 64 := by
  obtain ⟨signal, -, h⟩ := exists_of_bind_eq_ok h
  obtain ⟨interval, hinterval, h⟩ := exists_of_bind_eq_ok h
  obtain ⟨ack, -, h⟩ := exists_of_bind_eq_ok h
  cases h
  exact Params.durationOr_lt (by decide) hinterval

theorem SceneTrigger.pulse_lt {s : SceneTrigger} (h : ofParams p = .ok s) : s.pulse < 2 ^ 64 := by
  obtain ⟨scene, -, h⟩ := exists_of_bind_eq_ok h
  obtain ⟨fallback, -, h⟩ := exists_of_bind_eq_ok h
  dsimp only at h
  split at h
  · obtain ⟨_, hinvalid, -⟩ := exists_of_bind_eq_ok h
    cases hinvalid
  · obtain ⟨kind, -, h⟩ := exists_of_bind_eq_ok h
    obtain ⟨pulse, hpulse, h⟩ := exists_of_bind_eq_ok h
    obtain ⟨ack, -, h⟩ := exists_of_bind_eq_ok h
    cases h
    exact Params.durationOr_lt (by decide) hpulse

end SignalGraph
