import Mathlib.Data.List.Forall2
import SignalGraph.Proofs.Node.Kind

/-!
# Hours of operation

What an hour meter shows depends on its runs since the latest rise of `reset`: the hours of the
finished ones, added up in their order, and those of the run under way, measured from its start
(`HourMeter.measures_runs`). An evaluation at which no level changes neither starts nor ends a run,
so that the minutes' ticks do not make the meter drift.
-/

namespace SignalGraph

open Decimal

namespace HourMeter

/-! ### Runs -/

/-- What a meter sees of an evaluation. -/
structure Sample where
  run : Bool
  reset : Bool
  now : Moment

/-- An evaluation as a meter sees it. -/
def sample (v : View) : Sample :=
  ⟨v.level 0, v.level 1, v.reading.absoluteNow⟩

/-- A run that has started and perhaps finished. -/
structure Run where
  start : Moment
  finish? : Option Moment

/-- The hours of a finished run. -/
def Run.hours? (r : Run) : Option Float :=
  r.finish?.map (hoursBetween r.start)

/-- The start of a run that is under way. -/
def Run.since? (r : Run) : Option Moment :=
  if r.finish?.isNone then some r.start else none

/-- When a run finishes: at the first sample that does not run. -/
def finishIn (samples : List Sample) : Option Moment :=
  (samples.find? (!·.run)).map Sample.now

/-- The runs that start in a row of samples, where `running` says whether one is under way
before. -/
def runsAfter (running : Bool) : List Sample → List Run
  | [] => []
  | x :: rest =>
    if isRise running x.run then ⟨x.now, finishIn rest⟩ :: runsAfter x.run rest
    else runsAfter x.run rest

/-- The samples from the latest rise of `reset` on, if there is one; `level` is the level before. -/
def sinceReset? (level : Bool) : List Sample → Option (List Sample)
  | [] => none
  | x :: rest =>
    (sinceReset? x.reset rest).or (if isRise level x.reset then some (x :: rest) else none)

/-- The runs since the latest rise of `reset`, which cuts a run that is under way. -/
def countedRuns (samples : List Sample) : List Run :=
  runsAfter false ((sinceReset? false samples).getD samples)

/-- The hours of finished runs, added one after the other. -/
def sumHours (start : Float) (rs : List Run) : Float :=
  (rs.filterMap Run.hours?).foldl (· + ·) start

/-- The hours of the finished runs since the latest rise of `reset`. -/
def finishedHours (initial : Float) (samples : List Sample) : Float :=
  sumHours (if (sinceReset? false samples).isSome then 0.0 else initial) (countedRuns samples)

/-- When the run under way started, or was cut by `reset`. -/
def underWay? (samples : List Sample) : Option Moment :=
  (countedRuns samples).findSome? Run.since?

/-! ### Measuring -/

section Measuring

variable {m : HourMeter} {run : Bool} {now later : Moment}

/-- No time has passed since now. -/
theorem hoursBetween_self (now : Moment) : hoursBetween now now = 0.0 := by
  have hmillis : now.millisSince now = 0 := by simp [Moment.millisSince, Moment.nanosSince]
  rw [hoursBetween, hmillis]
  rfl

/-- While a meter runs, it adds the hours of the run under way to those of the finished ones. That
makes no difference to a run that has only just started. -/
theorem measured_running (hrun : run = true)
    (hzero : (m.measured run now).1.total + 0.0 = (m.measured run now).1.total) :
    ∃ since, (m.measured run now).1.runningSince = some since ∧
      (m.measured run now).2 = (m.measured run now).1.total + hoursBetween since now := by
  subst hrun
  unfold measured at *
  cases hsince : m.runningSince with
  | some since => exact ⟨since, hsince, rfl⟩
  | none =>
    rw [hsince] at hzero
    exact ⟨now, rfl, by rw [hoursBetween_self]; exact hzero.symm⟩

/-- While it stands still, a meter shows its total. -/
theorem measured_stopped (hrun : run = false) :
    (m.measured run now).2 = (m.measured run now).1.total := by
  subst hrun
  unfold measured
  cases m.runningSince <;> rfl

/-- Measuring again changes nothing. -/
theorem measured_measured :
    ((m.measured run now).1.measured run later).1 = (m.measured run now).1 := by
  cases run <;> cases hsince : m.runningSince <;> simp [measured, hsince]

/-- Measuring leaves the parameters and the level of `reset` alone. -/
theorem measured_frame : (m.measured run now).1.decimals = m.decimals ∧
    (m.measured run now).1.resetLevel = m.resetLevel := by
  unfold measured
  split <;> exact ⟨rfl, rfl⟩

/-- What a rise of `reset` makes of a meter, before the level of `run` is known. -/
def prepared (m : HourMeter) (run reset : Bool) (now : Moment) : HourMeter :=
  { (if isRise m.resetLevel reset then m.cleared run now else m) with resetLevel := reset }

theorem step_eq (reset : Bool) :
    m.step run reset now = (m.prepared run reset now).measured run now := rfl

/-- Where the level of `reset` has not changed, there is nothing to prepare. -/
theorem prepared_of_eq (m : HourMeter) (run : Bool) (now : Moment) :
    m.prepared run m.resetLevel now = m := by
  have hlevel : isRise m.resetLevel m.resetLevel = false := by
    cases m.resetLevel <;> rfl
  rw [prepared, hlevel]
  rfl

theorem resetLevel_step (reset : Bool) : (m.step run reset now).1.resetLevel = reset :=
  measured_frame.2

theorem decimals_step (reset : Bool) : (m.step run reset now).1.decimals = m.decimals := by
  rw [step_eq, measured_frame.1, prepared]
  split <;> rfl

/-- The levels of the evaluation before are not a rise. -/
theorem prepared_step (reset : Bool) :
    (m.step run reset now).1.prepared run reset later = (m.step run reset now).1 := by
  have h := prepared_of_eq (m.step run reset now).1 run later
  rwa [resetLevel_step] at h

/-- An evaluation on the levels of the one before changes nothing. -/
theorem step_step (reset : Bool) :
    ((m.step run reset now).1.step run reset later).1 = (m.step run reset now).1 := by
  rw [step_eq, prepared_step, step_eq, measured_measured]

end Measuring

/-! ### What is counted -/

section Counting

variable {m : HourMeter} {x : Sample} {samples : List Sample}

/-- The runs of a meter that has yet to see these samples. -/
def pending (since? : Option Moment) (samples : List Sample) : List Run :=
  match since? with
  | none => runsAfter false samples
  | some since => ⟨since, finishIn samples⟩ :: runsAfter true samples

/-- The finished hours and the start of the run under way once these runs have been counted. -/
def counted (total : Float) (rs : List Run) : Float × Option Moment :=
  (sumHours total rs, rs.findSome? Run.since?)

theorem pending_none_cons :
    pending none (x :: samples) = pending (if x.run then some x.now else none) samples := by
  cases hrun : x.run <;> simp [pending, runsAfter, hrun, isRise, EdgeKind.isEdge]

theorem pending_some_cons {since : Moment} : pending (some since) (x :: samples) =
    if x.run then pending (some since) samples
    else ⟨since, some x.now⟩ :: pending none samples := by
  cases hrun : x.run <;> simp [pending, runsAfter, finishIn, hrun, isRise, EdgeKind.isEdge]

/-- Measuring leaves to be counted what is to be counted from before. -/
theorem counted_measured : counted (m.measured x.run x.now).1.total
      (pending (m.measured x.run x.now).1.runningSince samples) =
    counted m.total (pending m.runningSince (x :: samples)) := by
  unfold measured
  cases hrun : x.run <;> cases hsince : m.runningSince
  · simp [pending_none_cons, hrun, hsince]
  · simp [pending_some_cons, hrun, counted, sumHours, Run.hours?, Run.since?]
  · simp [pending_none_cons, hrun]
  · simp [pending_some_cons, hrun, hsince]

/-- Nothing is left of what was before a rise of `reset`. -/
theorem counted_cleared : counted (m.cleared x.run x.now).total
      (pending (m.cleared x.run x.now).runningSince (x :: samples)) =
    counted 0.0 (pending none (x :: samples)) := by
  unfold cleared
  cases hrun : x.run <;> simp [pending_none_cons, pending_some_cons, hrun]

/-- What a meter will have counted once it has seen these samples. -/
def known (m : HourMeter) (samples : List Sample) : Float × Option Moment :=
  match sinceReset? m.resetLevel samples with
  | none => counted m.total (pending m.runningSince samples)
  | some since => counted 0.0 (pending none since)

/-- What a meter knows, before it sees the rest of the samples, takes in the first one. -/
theorem known_step : (m.step x.run x.reset x.now).1.known samples = m.known (x :: samples) := by
  unfold known
  rw [resetLevel_step, sinceReset?, step_eq]
  cases sinceReset? x.reset samples with
  | some since => rfl
  | none =>
    dsimp only
    rw [counted_measured, Option.none_or, prepared]
    by_cases hrise : isRise m.resetLevel x.reset = true
    · rw [if_pos hrise, if_pos hrise]
      exact counted_cleared (m := m)
    · rw [if_neg hrise, if_neg hrise]

/-- Without samples, a meter knows its total and when the run under way has started. -/
theorem known_nil : m.known [] = (m.total, m.runningSince) := by
  unfold known counted
  cases hsince : m.runningSince with
  | none => rfl
  | some since => rfl

/-- A meter that has not been evaluated yet counts all runs. -/
theorem known_eq (hsince : m.runningSince = none) (hlevel : m.resetLevel = false) :
    m.known samples = (finishedHours m.total samples, underWay? samples) := by
  unfold known finishedHours underWay? countedRuns
  rw [hsince, hlevel]
  cases sinceReset? false samples <;> rfl

end Counting

/-! ### Evaluations in a row -/

variable {p : Params} {m : HourMeter} {v : View} {views views' : List View}

/-- The meter after evaluations. -/
def afterAll (m : HourMeter) (views : List View) : HourMeter :=
  views.foldl (fun m v => (m.react v).state) m

theorem afterAll_concat : m.afterAll (views ++ [v]) = ((m.afterAll views).react v).state := by
  rw [afterAll, List.foldl_append]
  rfl

/-- After some evaluations a meter knows what it would know from their samples. -/
theorem known_afterAll (m : HourMeter) (views : List View) (samples : List Sample) :
    (m.afterAll views).known samples = m.known (views.map sample ++ samples) := by
  induction views generalizing m with
  | nil => rfl
  | cons v views ih =>
    rw [List.map_cons, List.cons_append, ← known_step]
    exact ih _

theorem decimals_afterAll (m : HourMeter) (views : List View) :
    (m.afterAll views).decimals = m.decimals := by
  induction views generalizing m with
  | nil => rfl
  | cons v views ih => exact (ih _).trans (decimals_step _)

/-- Further evaluations in between, each on the levels of the one before it. -/
inductive Ticked : List View → List View → Prop
  | nil : Ticked [] []
  | snoc {views views' : List View} (v : View) (h : Ticked views views') :
    Ticked (views ++ [v]) (views' ++ [v])
  | tick {views views' : List View} {last tick : View} (h : Ticked views (views' ++ [last]))
    (hlevels : ∀ port, tick.level port = last.level port) :
    Ticked views (views' ++ [last] ++ [tick])

/-- The same evaluation, but the local clock may show another time. -/
def AtSameTime (v v' : View) : Prop :=
  v'.ports = v.ports ∧ v'.reading.absoluteNow = v.reading.absoluteNow

/-- Evaluating a meter once more at the same level makes no difference in between. -/
theorem afterAll_of_ticked (h : Ticked views views') : m.afterAll views' = m.afterAll views := by
  induction h with
  | nil => rfl
  | snoc v _ ih => rw [afterAll_concat, afterAll_concat, ih]
  | @tick views views' last tick _ hlevels ih =>
    have hstep (m : HourMeter) :
        ((m.react last).state.react tick).state = (m.react last).state := by
      change ((m.react last).state.step (tick.level 0) (tick.level 1) _).1 = _
      rw [hlevels, hlevels]
      exact step_step _
    rw [afterAll_concat, afterAll_concat, hstep, ← afterAll_concat, ih]

/-- A meter reads the absolute time alone. -/
theorem react_of_atSameTime {v v' : View} (h : AtSameTime v v') :
    (m.react v').state = (m.react v).state ∧ (m.react v').outputs = (m.react v).outputs := by
  have hlevel (port : Nat) : v'.level port = v.level port := by
    unfold View.level View.input
    rw [h.1]
  unfold react
  rw [hlevel, hlevel, h.2]
  exact ⟨rfl, rfl⟩

theorem afterAll_of_atSameTime (h : List.Forall₂ AtSameTime views views') :
    m.afterAll views' = m.afterAll views := by
  induction h generalizing m with
  | nil => rfl
  | @cons v v' views views' hfirst _ ih =>
    exact (congrArg (afterAll · views') (react_of_atSameTime hfirst).1).trans ih

/-- What a meter shows of the runs that it has seen. -/
structure MeasuresRuns (m : HourMeter) (initial : Float) (decimals : Nat) : Prop where
  /-- The total is the hours of the finished runs. -/
  total (views : List View) :
    (m.afterAll views).total = finishedHours initial (views.map sample)
  /-- While it runs, it shows the total and the hours of the run under way. -/
  running (views : List View) (v : View) (hrun : v.level 0 = true)
    (hzero : finishedHours initial ((views ++ [v]).map sample) + 0.0 =
      finishedHours initial ((views ++ [v]).map sample)) :
    ∃ since, underWay? ((views ++ [v]).map sample) = some since ∧
      ((m.afterAll views).react v).outputs =
        [.num (roundTo (finishedHours initial ((views ++ [v]).map sample) +
          hoursBetween since v.reading.absoluteNow) decimals)]
  /-- Otherwise it shows the total. -/
  stopped (views : List View) (v : View) (hrun : v.level 0 = false) :
    ((m.afterAll views).react v).outputs =
      [.num (roundTo (finishedHours initial ((views ++ [v]).map sample)) decimals)]
  /-- Further evaluations at which no level changes make no difference. -/
  ticked {views views' : List View} (h : Ticked views views') :
    (m.afterAll views').total = (m.afterAll views).total ∧
      ∀ v, ((m.afterAll views').react v).outputs = ((m.afterAll views).react v).outputs
  /-- Nor does the local clock. -/
  shifted {views views' : List View} {v v' : View} (h : List.Forall₂ AtSameTime views views')
    (hlast : AtSameTime v v') :
    ((m.afterAll views').react v').outputs = ((m.afterAll views).react v).outputs

/-- A meter starts with the hours that its parameters say. -/
theorem of_ofParams (h : ofParams p = .ok m) : ∃ decimals?,
    p.numberOr "initial_hours" 0.0 = .ok m.total ∧ p.decimals? "decimals" = .ok decimals? ∧
      m = { decimals := decimals?.getD 2, total := m.total } := by
  obtain ⟨initial, hinitial, h⟩ := exists_of_bind_eq_ok h
  dsimp only at h
  split at h
  · obtain ⟨u, hinvalid, -⟩ := exists_of_bind_eq_ok h
    cases hinvalid
  · obtain ⟨decimals?, hdecimals, h⟩ := exists_of_bind_eq_ok h
    cases h
    exact ⟨decimals?, hinitial, hdecimals, rfl⟩

/-- An hour meter shows the hours of its runs since the latest rise of `reset`, however often it is
evaluated in between and whatever the local clock shows. -/
theorem measures_runs (h : ofParams p = .ok m) : ∃ initial decimals?,
    p.numberOr "initial_hours" 0.0 = .ok initial ∧ p.decimals? "decimals" = .ok decimals? ∧
      m.MeasuresRuns initial (decimals?.getD 2) := by
  obtain ⟨decimals?, hinitial, hdecimals, heq⟩ := of_ofParams h
  have hfresh : m.runningSince = none ∧ m.resetLevel = false ∧ m.decimals = decimals?.getD 2 := by
    rw [heq]
    exact ⟨rfl, rfl, rfl⟩
  obtain ⟨hsince, hlevel, hplaces⟩ := hfresh
  -- a new meter knows nothing, so what it knows later is in the samples
  have hknown (views : List View) : (m.afterAll views).total =
        finishedHours m.total (views.map sample) ∧
      (m.afterAll views).runningSince = underWay? (views.map sample) := by
    have hafter := known_afterAll m views []
    rw [known_nil, List.append_nil, known_eq hsince hlevel] at hafter
    exact Prod.mk.inj hafter
  have houtputs (views : List View) (v : View) : ((m.afterAll views).react v).outputs =
      [.num (roundTo ((m.afterAll views).step (v.level 0) (v.level 1) v.reading.absoluteNow).2
        (decimals?.getD 2))] := by
    rw [← hplaces, ← decimals_afterAll m views]
    rfl
  refine ⟨m.total, decimals?, hinitial, hdecimals, ?_⟩
  constructor
  case total => exact fun views => (hknown views).1
  case running =>
    intro views v hrun hzero
    obtain ⟨htotal, hunder⟩ := hknown (views ++ [v])
    rw [← htotal, ← hunder, houtputs]
    rw [← htotal] at hzero
    rw [afterAll_concat] at hzero ⊢
    obtain ⟨since, hsince, hours⟩ := measured_running hrun hzero
    exact ⟨since, hsince, congrArg (fun hours => [Value.num (roundTo hours _)]) hours⟩
  case stopped =>
    intro views v hrun
    rw [← (hknown (views ++ [v])).1, houtputs, afterAll_concat]
    exact congrArg (fun hours => [Value.num (roundTo hours _)]) (measured_stopped hrun)
  case ticked =>
    intro views views' hticked
    rw [afterAll_of_ticked hticked]
    exact ⟨rfl, fun _ => rfl⟩
  case shifted =>
    intro views views' v v' hbefore hlast
    rw [afterAll_of_atSameTime hbefore]
    exact (react_of_atSameTime hlast).2

/-! ### A run that is cut -/

/-- A meter that starts with two and a half hours. -/
def usedParams : Params where
  node := "hours"
  table := [("initial_hours", .str "2.5"), ("decimals", .int 1)]

def usedMeter : HourMeter where
  decimals := 1
  total := 2.5

/-- An evaluation so many minutes after midnight. -/
def viewAt (run reset : Bool) (minute : Nat) : View where
  trigger := .inputs
  ports := { type := .runtimeHours, inputs := [.bool run, .bool reset], outputs := [.null] }
  timers := []
  reading := ⟨⟨0, ⟨minute * 60, 0⟩⟩, ⟨0, ⟨minute * 60, 0⟩⟩, 60000⟩

/-- Two hours have passed in a run, but `reset` has risen after the first half hour. -/
theorem measures_cut_run : ofParams usedParams = .ok usedMeter ∧
    ((usedMeter.afterAll [viewAt true false 0, viewAt true true 30]).react
      (viewAt true true 120)).outputs = [.num 1.5] := by
  have hparams : ofParams usedParams = .ok usedMeter := by rfl
  obtain ⟨initial, decimals?, hinitial, hdecimals, hmeasures⟩ := measures_runs hparams
  obtain rfl : 2.5 = initial :=
    Except.ok.inj ((by rfl : usedParams.numberOr "initial_hours" 0.0 = .ok 2.5).symm.trans hinitial)
  obtain rfl : some 1 = decimals? :=
    Except.ok.inj ((by rfl : usedParams.decimals? "decimals" = .ok (some 1)).symm.trans hdecimals)
  obtain ⟨since, hsince, houtputs⟩ := hmeasures.running
    [viewAt true false 0, viewAt true true 30] (viewAt true true 120) rfl (by decide +kernel)
  obtain rfl : ⟨0, ⟨1800, 0⟩⟩ = since := Option.some.inj hsince
  exact ⟨hparams, houtputs.trans (congrArg (fun hours => [Value.num hours]) (by decide +kernel))⟩

end HourMeter

end SignalGraph
