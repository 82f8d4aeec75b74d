import SignalGraph.Proofs.Calendar.Moment
import SignalGraph.Proofs.Node.Throttle

/-!
# The pace of writes

When time goes forward and every timer fires when it is due, an output bridge keeps its distance
between two writes, and a write that was put off is made as soon as it may be (`Node.Lives.paced`).
The bridge measures in absolute time, in which a leap second is lost when it is left. So a write
that comes after one in a leap second may be late, but never early, and never by more than a second.
-/

namespace SignalGraph

/-! ### Punctual episodes -/

/-- Episodes in the order of time, on a clock that started at `start`. Timers fire when they are
due. -/
structure Punctual (start : Moment) (eps : List Episode) : Prop where
  sorted : eps.Pairwise fun ep ep' => ep.time ≤ ep'.time
  moment_eq : ∀ ep ∈ eps, ep.reading.absoluteNow = start.addMillis ep.time
  due : ∀ ep ∈ eps, ∀ timer, ep.occasion = .fired timer → timer.Due ep.time

namespace Punctual

variable {start : Moment} {eps eps' : List Episode} {ep : Episode} {a a' : Attempt}

theorem nil (start : Moment) : Punctual start [] :=
  ⟨.nil, nofun, nofun⟩

theorem sublist (h : Punctual start eps) (hsub : eps'.Sublist eps) : Punctual start eps' where
  sorted := h.sorted.sublist hsub
  moment_eq ep hep := h.moment_eq ep (hsub.subset hep)
  due ep hep := h.due ep (hsub.subset hep)

/-- Episodes that are over before others begin. -/
theorem append (h : Punctual start eps) (h' : Punctual start eps')
    (hle : ∀ ep ∈ eps, ∀ ep' ∈ eps', ep.time ≤ ep'.time) : Punctual start (eps ++ eps') where
  sorted := List.pairwise_append.2 ⟨h.sorted, h'.sorted, hle⟩
  moment_eq ep hep := (List.mem_append.1 hep).elim (h.moment_eq ep) (h'.moment_eq ep)
  due ep hep := (List.mem_append.1 hep).elim (h.due ep) (h'.due ep)

/-- An attempt is made at the time of its episode. -/
theorem moment_eq_of_mem_attempts (h : Punctual start eps) (ha : a ∈ attempts eps) :
    a.moment = start.addMillis a.time := by
  obtain ⟨ep, hep, ha⟩ := List.mem_flatMap.1 ha
  obtain ⟨value, -, rfl⟩ := List.mem_map.1 ha
  exact h.moment_eq ep hep

theorem time_le_of_mem_attempts (h : Punctual start (eps ++ [ep])) (ha : a ∈ attempts eps) :
    a.time ≤ ep.time := by
  obtain ⟨ep', hep', ha⟩ := List.mem_flatMap.1 ha
  obtain ⟨value, -, rfl⟩ := List.mem_map.1 ha
  exact (List.pairwise_append.1 h.sorted).2.2 ep' hep' ep (List.mem_singleton_self ep)

end Punctual

/-! ### Distances -/

/-- At this virtual time a write is made that had to wait for the end of the interval after an
attempt. After an attempt in a leap second it may come up to a second late. -/
structure Attempt.Ends (a : Attempt) (interval time : Nat) : Prop where
  ge : a.time + interval ≤ time
  le : time ≤ a.time + interval + 1000
  eq : a.moment.time.isLeap = false → time = a.time + interval

/-- An attempt keeps its distance from the one before, in milliseconds of virtual time, and a write
that was put off comes at the end of the interval. -/
structure Attempt.Follows (interval : Nat) (a a' : Attempt) : Prop where
  apart : a.time + interval ≤ a'.time
  ends : a'.deferred = true → a.Ends interval a'.time

/-- The same for all attempts, the first of which is never a write that was put off. -/
structure Spaced (interval : Nat) (as : List Attempt) : Prop where
  first : ∀ a ∈ as.head?, a.deferred = false
  chain : as.IsChain (Attempt.Follows interval)

theorem Spaced.nil (interval : Nat) : Spaced interval [] :=
  ⟨nofun, .nil⟩

/-- One more attempt. -/
theorem Spaced.concat {interval : Nat} {as : List Attempt} {a : Attempt} (h : Spaced interval as)
    (hfirst : as = [] → a.deferred = false)
    (hlast : ∀ last ∈ as.getLast?, last.Follows interval a) :
    Spaced interval (as ++ [a]) where
  first := by
    cases as with
    | nil =>
      rintro a' ⟨⟩
      exact hfirst rfl
    | cons b rest => exact h.first
  chain := by
    refine List.isChain_append.2 ⟨h.chain, List.isChain_singleton _, ?_⟩
    rintro last hlast' a' ⟨⟩
    exact hlast last hlast'

/-- The milliseconds of virtual time from one attempt to a later one. -/
def Attempt.virtualDistance (a a' : Attempt) : Nat :=
  a'.time - a.time

/-- The milliseconds of absolute time from one attempt to a later one. -/
def Attempt.absoluteDistance (a a' : Attempt) : Nat :=
  a'.moment.millisSince a.moment

/-- By some measure of distance, attempts are at least an interval apart, and a write that was put
off comes exactly one interval after the attempt before it. -/
structure Exact (interval : Nat) (distance : Attempt → Attempt → Nat) (as : List Attempt) :
    Prop where
  first : ∀ a ∈ as.head?, a.deferred = false
  chain : as.IsChain fun a a' =>
    interval ≤ distance a a' ∧ (a'.deferred = true → distance a a' = interval)

/-- Outside leap seconds, virtual and absolute time agree, and writes are put off to the
millisecond. -/
theorem Spaced.exact {interval : Nat} {eps : List Episode} {start : Moment}
    (h : Spaced interval (attempts eps)) (hpunctual : Punctual start eps)
    (hstart : start.time.isLeap = false) :
    Exact interval Attempt.virtualDistance (attempts eps) ∧
      Exact interval Attempt.absoluteDistance (attempts eps) := by
  -- a clock that starts outside a leap second never enters one
  have hordinary : ∀ a ∈ attempts eps, a.moment.time.isLeap = false := by
    intro a ha
    rw [hpunctual.moment_eq_of_mem_attempts ha]
    exact (Moment.stamp_addMillis hstart a.time).2
  have hvirtual : ∀ a ∈ attempts eps, ∀ a', a.Follows interval a' →
      interval ≤ a.virtualDistance a' ∧ (a'.deferred = true → a.virtualDistance a' = interval) := by
    intro a ha a' hfollows
    have hapart := hfollows.apart
    unfold Attempt.virtualDistance
    refine ⟨by omega, fun hdeferred => ?_⟩
    have htime := (hfollows.ends hdeferred).eq (hordinary a ha)
    omega
  -- without leap seconds, absolute times differ by what has elapsed
  have hagree : ∀ a ∈ attempts eps, ∀ a' ∈ attempts eps, a.Follows interval a' →
      a.absoluteDistance a' = a.virtualDistance a' := by
    intro a ha a' ha' hfollows
    have hapart := hfollows.apart
    have hleap := hordinary a ha
    rw [hpunctual.moment_eq_of_mem_attempts ha] at hleap
    unfold Attempt.virtualDistance Attempt.absoluteDistance
    rw [hpunctual.moment_eq_of_mem_attempts ha, hpunctual.moment_eq_of_mem_attempts ha']
    exact Moment.millisSince_addMillis (by omega) hleap
  refine ⟨⟨h.first, ?_⟩, ⟨h.first, ?_⟩⟩
  · exact h.chain.imp_of_mem_imp fun a a' ha _ hfollows => hvirtual a ha a' hfollows
  · refine h.chain.imp_of_mem_imp fun a a' ha ha' hfollows => ?_
    rw [hagree a ha a' ha' hfollows]
    exact hvirtual a ha a' hfollows

/-! ### Bridges -/

namespace OutputBridge

/-- A bridge whose attempts keep their distance, and whose timer is due at the end of the interval
after the last of them. -/
structure Paced (b : OutputBridge) (timers : ArmedTimers) (eps : List Episode) : Prop where
  spaced : Spaced b.interval (attempts eps)
  due : ∀ timer ∈ timers, ∀ time, timer.Due time →
    ∃ last, (attempts eps).getLast? = some last ∧ last.Ends b.interval time

variable {b b' : OutputBridge} {timers timers' : ArmedTimers} {eps : List Episode} {ep : Episode}
  {start : Moment} {input : Value}

theorem Move.interval_eq (h : b.Move timers input ep b' timers') : b'.interval = b.interval := by
  cases h <;> rfl

/-- A write has to wait while the last attempt seems to be less than the interval ago. -/
theorem Throttled.delay?_eq (h : b.Throttled timers eps) (now : Moment) :
    b.delay? now = (attempts eps).getLast?.bind fun last =>
      if now.millisSince last.moment < b.interval then
        some (b.interval - now.millisSince last.moment)
      else none := by
  unfold delay?
  rw [h.lastWrite_eq]
  cases (attempts eps).getLast? <;> rfl

/-- How long ago the last attempt seems to be, in absolute time. -/
theorem millisSince_last (hpunctual : Punctual start (eps ++ [ep])) {last : Attempt}
    (hlast : (attempts eps).getLast? = some last) :
    last.time ≤ ep.time ∧
      ep.reading.absoluteNow.millisSince last.moment ≤ ep.time - last.time ∧
      ep.time - last.time ≤ ep.reading.absoluteNow.millisSince last.moment + 1000 ∧
      (last.moment.time.isLeap = false →
        ep.reading.absoluteNow.millisSince last.moment = ep.time - last.time) := by
  have hmem : last ∈ attempts eps := List.mem_of_getLast? hlast
  have hle := hpunctual.time_le_of_mem_attempts hmem
  have hbefore : Punctual start eps := hpunctual.sublist (List.sublist_append_left _ _)
  have hlastMoment := hbefore.moment_eq_of_mem_attempts hmem
  have hmoment := hpunctual.moment_eq ep (List.mem_append_right _ (List.mem_singleton_self ep))
  rw [hmoment, hlastMoment]
  exact ⟨hle, Moment.millisSince_addMillis_le hle, Moment.le_millisSince_addMillis hle,
    Moment.millisSince_addMillis hle⟩

/-- The timer of a write that is put off is due at the end of the interval. -/
theorem ends_of_delay (h : b.Throttled timers eps) (hpunctual : Punctual start (eps ++ [ep]))
    {delay : Nat} (hdelay : b.delay? ep.reading.absoluteNow = some delay) :
    ∃ last, (attempts eps).getLast? = some last ∧ last.Ends b.interval (ep.time + delay) := by
  rw [h.delay?_eq] at hdelay
  obtain ⟨last, hlast, hdelay⟩ := Option.bind_eq_some_iff.1 hdelay
  obtain ⟨hle, hseems, hmissing, hexact⟩ := millisSince_last hpunctual hlast
  obtain ⟨hlt, hdelay⟩ := Option.ite_none_right_eq_some.1 hdelay
  have hdelay := Option.some.inj hdelay
  -- the delay is what seems to be missing to the interval, so it may only be too long
  refine ⟨last, hlast, ?_, ?_, ?_⟩
  · omega
  · omega
  · intro hleap
    have hago := hexact hleap
    omega

/-- A write that is made at once keeps its distance. -/
theorem apart_of_no_delay (h : b.Throttled timers eps) (hpunctual : Punctual start (eps ++ [ep]))
    (hdelay : b.delay? ep.reading.absoluteNow = none) :
    ∀ last ∈ (attempts eps).getLast?, last.time + b.interval ≤ ep.time := by
  intro last hlast
  obtain ⟨hle, hseems, -, -⟩ := millisSince_last hpunctual hlast
  rw [h.delay?_eq, Option.mem_def.1 hlast, Option.bind_some, ite_eq_right_iff] at hdelay
  have hover : ¬ ep.reading.absoluteNow.millisSince last.moment < b.interval :=
    fun hlt => nomatch hdelay hlt
  omega

namespace Paced

/-- An episode without an attempt. -/
theorem wait (waiting : Option Value) (h : b.Paced timers eps) (hattempts : ep.attempts = [])
    (hdue : ∀ timer ∈ timers', ∀ time, timer.Due time →
      ∃ last, (attempts eps).getLast? = some last ∧ last.Ends b.interval time) :
    Paced { b with waiting := waiting } timers' (eps ++ [ep]) := by
  have hsame : attempts (eps ++ [ep]) = attempts eps := by
    rw [attempts_concat, hattempts, List.append_nil]
  constructor
  · rw [hsame]
    exact h.spaced
  · rw [hsame]
    exact hdue

theorem move (h : b.Paced timers eps) (hthrottled : b.Throttled timers eps)
    (hmove : b.Move timers input ep b' timers') (hpunctual : Punctual start (eps ++ [ep])) :
    b'.Paced timers' (eps ++ [ep]) := by
  cases hmove with
  | ignore _ hattempts => exact h.wait b.waiting hattempts h.due
  | settle _ _ hattempts => exact h.wait none hattempts nofun
  | @defer delay timer _ _ hdelay _ hdueAt hattempts =>
    -- the old timer is gone, and the new one is due when the interval ends
    refine h.wait (some input) hattempts ?_
    rintro timer' htimer' time ⟨ticket, hticket, rfl⟩
    rw [List.mem_singleton.1 htimer'] at hticket
    rw [hdueAt ticket hticket]
    exact ends_of_delay hthrottled hpunctual hdelay
  | write _ _ hdelay hattempts =>
    refine ⟨?_, nofun⟩
    rw [attempts_concat, hattempts]
    refine h.spaced.concat (fun _ => rfl) fun last hlast => ⟨?_, nofun⟩
    exact apart_of_no_delay hthrottled hpunctual hdelay last hlast
  | @release timer value htimers hoccasion _ hattempts =>
    -- the timer has fired when it was due, which is at the end of the interval
    have hmem : ep ∈ eps ++ [ep] := List.mem_append_right _ (List.mem_singleton_self ep)
    have hfired := hpunctual.due ep hmem timer hoccasion
    obtain ⟨last, hlast, hends⟩ := h.due timer (htimers ▸ List.mem_singleton_self timer) _ hfired
    refine ⟨?_, nofun⟩
    rw [attempts_concat, hattempts]
    refine h.spaced.concat ?_ ?_
    · intro hnil
      rw [hnil] at hlast
      cases hlast
    · intro last' hlast'
      cases hlast.symm.trans hlast'
      exact ⟨hends.ge, fun _ => hends⟩

end Paced

end OutputBridge

/-- An output bridge keeps its distance between two writes as long as time goes forward and timers
fire when they are due. -/
theorem Node.Lives.paced {n₀ n : Node} {eps : List Episode} (h : n₀.Lives eps n) (hfresh : n₀.Fresh)
    (henabled : n₀.enabled = true) {b₀ : OutputBridge} (hb₀ : n₀.behavior = .outputBridge b₀)
    {start : Moment} (hpunctual : Punctual start eps) :
    ∃ b, n.behavior = .outputBridge b ∧ b.interval = b₀.interval ∧ b.Paced n.timers eps := by
  induction h with
  | nil =>
    refine ⟨b₀, hb₀, rfl, .nil _, ?_⟩
    rw [hfresh.timers]
    exact nofun
  | @snoc eps n n' ep hlives hundergoes ih =>
    -- which timer is armed, and for what, is what throttling says about the same bridge
    obtain ⟨b, hb, hinterval, hpaced⟩ := ih (hpunctual.sublist (List.sublist_append_left _ _))
    obtain ⟨b', hb', hthrottled⟩ := hlives.throttled hfresh henabled hb₀
    obtain rfl : b' = b := by simpa using hb'.symm.trans hb
    have hn : n.enabled = true := hlives.enabled_eq.trans henabled
    obtain ⟨b', hb', hmove⟩ := hundergoes.outputBridge hn hb hthrottled.armed
    exact ⟨b', hb', hmove.interval_eq.trans hinterval, hpaced.move hthrottled hmove hpunctual⟩

end SignalGraph
