import SignalGraph.Proofs.Engine.Effects
import SignalGraph.Proofs.Timer.Passage

/-!
# Time that passes in the engine

Nothing but the passing of time moves the clocks of an engine (`World.lasting_sameTimes`), so time
may be split at will: `Engine.Passes` says which timers fire while so many milliseconds pass, each
at its virtual time, and in which state the engine is at the end, and it is additive in the
milliseconds (`Engine.advance_additive`).
-/

namespace SignalGraph

/-! ### Clocks -/

namespace World

variable {H : Type} {w w' w'' : World H}

/-- The clock shows the same times in both worlds, and so does the timeline on which timers wait. -/
structure SameTimes (w w' : World H) : Prop where
  clock : w.clock.SameTimes w'.clock
  timeline : w.timeline.SameTimes w'.timeline

theorem SameTimes.refl (w : World H) : w.SameTimes w :=
  ⟨.refl _, .refl _⟩

theorem SameTimes.trans (h : w.SameTimes w') (h' : w'.SameTimes w'') : w.SameTimes w'' :=
  ⟨h.clock.trans h'.clock, h.timeline.trans h'.timeline⟩

/-- A timeline that shows the same times may take the place of the timeline of a world. -/
theorem sameTimes_withTimeline {t : Timeline Fire} (h : t.SameTimes w.timeline) :
    (w.withTimeline t).SameTimes w := by
  refine ⟨?_, (timeline_withTimeline w t).symm ▸ h⟩
  unfold timeline at h
  unfold withTimeline
  cases hservice : w.service with
  | separate => exact .refl _
  | shared | inert =>
    rw [hservice] at h
    exact h

theorem Quiet.sameTimes (h : w.Quiet w') : w'.SameTimes w := by
  constructor
  · rw [h.clock_eq]
    exact .refl _
  · rw [h.timeline_eq]
    exact .refl _

/-- Time stands still while nodes are at work. -/
theorem lasting_sameTimes [Host H] (w₀ : World H) : Lasting fun w => w.SameTimes w₀ where
  write _ _ _ h := (Quiet.afterCall _ _).sameTimes.trans h
  resolve _ h := (Quiet.afterCall _ _).sameTimes.trans h
  withTimeline ht h := (sameTimes_withTimeline ht).trans h
  nextToken _ h := ⟨h.clock, h.timeline⟩

end World

namespace Engine

variable {H : Type} [Host H] {e e' : Engine H} {limit limit' millis : Nat}
  {fires : List (Nat × Fire)}

theorem sameTimes_handle (e : Engine H) (event : Event) :
    (e.handle event).world.SameTimes e.world :=
  (World.lasting_sameTimes e.world).handle event (.refl _)

theorem sameTimes_settle (h : settle limit e = some e') : e'.world.SameTimes e.world := by
  refine (settle_induct (P := fun e' : Engine H => e'.world.SameTimes e.world) ?_ h (.refl _)).1
  intro e₁ e₂ hturn h₁
  obtain ⟨event, rest, -, rfl⟩ := turn?_eq_some hturn
  have hqueue : (e₁.withQueue rest).world.SameTimes e₁.world := ⟨.refl _, .refl _⟩
  exact ((sameTimes_handle _ event).trans hqueue).trans h₁

theorem steady_owner (limit : Nat) : (owner (H := H) limit).Steady where
  timeline_withTimeline e t := World.timeline_withTimeline e.world t
  withTimeline_withTimeline e t t' :=
    congrArg (fun w => { e with world := w }) (World.withTimeline_withTimeline e.world t t')
  elapsed_fire h := (sameTimes_settle h).timeline.elapsed_eq

/-! ### Limits -/

/-- A limit that suffices may be raised. -/
theorem settle_mono (hle : limit ≤ limit') (h : settle limit e = some e') :
    settle limit' e = some e' := by
  induction limit' generalizing limit e with
  | zero =>
    obtain rfl : limit = 0 := Nat.le_zero.1 hle
    exact h
  | succ limit' ih =>
    unfold settle at h ⊢
    cases hturn : e.turn? with
    | none =>
      rw [hturn] at h
      exact h
    | some e'' =>
      rw [hturn] at h
      cases limit with
      | zero => cases h
      | succ limit => exact ih (Nat.le_of_succ_le_succ hle) h

theorem passes_mono (hle : limit ≤ limit') {target : Nat}
    (h : (owner limit).Passes target e fires e') : (owner limit').Passes target e fires e' := by
  induction h with
  | reach hnone => exact .reach (o := owner limit') hnone
  | fire hpop hfire _ ih => exact .fire hpop (settle_mono hle hfire) ih

/-! ### Letting time pass -/

/-- So many milliseconds can pass: these timers fire meanwhile, each at its virtual time, and this
is the state at the end. -/
def Passes (millis : Nat) (e : Engine H) (fires : List (Nat × Fire)) (e' : Engine H) : Prop :=
  ∃ limit, e.advance limit millis = some (fires.length, e') ∧
    (owner limit).Passes (e.world.timeline.elapsed + millis) e fires e'

/-- The fires can be told from the owner alone; their number is what the engine reports. -/
theorem passes_iff : e.Passes millis fires e' ↔
    ∃ limit, (owner limit).Passes (e.world.timeline.elapsed + millis) e fires e' := by
  constructor
  · rintro ⟨limit, -, hpasses⟩
    exact ⟨limit, hpasses⟩
  · rintro ⟨limit, hpasses⟩
    have hraised := passes_mono (Nat.le_max_left limit fires.length) hpasses
    refine ⟨max limit fires.length, ?_, hraised⟩
    exact Owner.advanceTo_eq_some_iff.2
      ⟨fires, hraised, Nat.le_max_right _ _, (Nat.zero_add _).symm⟩

/-- Whenever letting time pass comes to an end, it is told what has fired. -/
theorem exists_passes {n : Nat} (h : e.advance limit millis = some (n, e')) :
    ∃ fires, e.Passes millis fires e' ∧ n = fires.length := by
  obtain ⟨fires, hpasses, -, hn⟩ := Owner.advanceTo_eq_some_iff.1 h
  exact ⟨fires, passes_iff.2 ⟨limit, hpasses⟩, hn.trans (Nat.zero_add _)⟩

theorem Passes.elapsed_eq (h : e.Passes millis fires e') :
    e'.world.timeline.elapsed = e.world.timeline.elapsed + millis := by
  obtain ⟨limit, -, hpasses⟩ := h
  exact (hpasses.elapsed_eq (steady_owner limit)).trans (Nat.max_eq_right (Nat.le_add_right _ _))

theorem passes_add {a b : Nat} : e.Passes (a + b) fires e' ↔
    ∃ first e₁ second, e.Passes a first e₁ ∧ e₁.Passes b second e' ∧ fires = first ++ second := by
  have htarget : e.world.timeline.elapsed + (a + b) = e.world.timeline.elapsed + a + b :=
    (Nat.add_assoc _ _ _).symm
  constructor
  · rintro ⟨limit, -, hpasses⟩
    rw [htarget] at hpasses
    obtain ⟨first, e₁, second, hfirst, hsecond, rfl⟩ :=
      (Owner.passes_split_iff (steady_owner limit) (Nat.le_add_right _ _)).1 hpasses
    have hpassed : e.Passes a first e₁ := passes_iff.2 ⟨limit, hfirst⟩
    rw [← hpassed.elapsed_eq] at hsecond
    exact ⟨first, e₁, second, hpassed, passes_iff.2 ⟨limit, hsecond⟩, rfl⟩
  · rintro ⟨first, e₁, second, hfirst, hsecond, rfl⟩
    have helapsed := hfirst.elapsed_eq
    obtain ⟨limit₁, -, hfirst⟩ := hfirst
    obtain ⟨limit₂, -, hsecond⟩ := hsecond
    rw [helapsed, ← htarget] at hsecond
    have hfirst := passes_mono (Nat.le_max_left limit₁ limit₂) hfirst
    have hsecond := passes_mono (Nat.le_max_right limit₁ limit₂) hsecond
    have hle : e.world.timeline.elapsed + a ≤ e.world.timeline.elapsed + (a + b) :=
      Nat.add_le_add_left (Nat.le_add_right a b) _
    refine passes_iff.2 ⟨max limit₁ limit₂, ?_⟩
    exact (Owner.passes_split_iff (steady_owner _) hle).2
      ⟨first, e₁, second, hfirst, hsecond, rfl⟩

/-- Time that passes in several steps. -/
def PassesAll : List Nat → Engine H → List (Nat × Fire) → Engine H → Prop
  | [], e, fires, e' => fires = [] ∧ e' = e
  | millis :: rest, e, fires, e' => ∃ first e₁ second,
    e.Passes millis first e₁ ∧ PassesAll rest e₁ second e' ∧ fires = first ++ second

theorem passesAll_cons {millis : Nat} {rest : List Nat} :
    PassesAll (millis :: rest) e fires e' ↔ e.Passes (millis + rest.sum) fires e' := by
  induction rest generalizing e millis fires with
  | nil =>
    constructor
    · rintro ⟨first, e₁, second, hfirst, ⟨rfl, rfl⟩, rfl⟩
      rwa [List.append_nil]
    · intro h
      exact ⟨fires, e', [], h, ⟨rfl, rfl⟩, (List.append_nil _).symm⟩
  | cons next rest ih =>
    rw [PassesAll, List.sum_cons, passes_add]
    simp only [ih]

/-- Virtual time is additive. Letting `a + b` milliseconds pass comes to an end exactly if letting
`a` and then `b` milliseconds pass does, and then it comes to the same: the same timers fire in the
same order at the same virtual times, as many as are reported in total, and the engine ends in the
same state, in which the host has logged the same calls. So it makes no difference in how many steps
time passes. Whenever letting time pass comes to an end, it is told in this way what has fired. -/
theorem advance_additive (e : Engine (Logged H)) (fires : List (Nat × Fire))
    (e' : Engine (Logged H)) :
    (∀ a b, e.Passes (a + b) fires e' ↔
      ∃ first e₁ second, e.Passes a first e₁ ∧ e₁.Passes b second e' ∧ fires = first ++ second) ∧
    (∀ a rest, e.PassesAll (a :: rest) fires e' ↔ e.Passes (a + rest.sum) fires e') ∧
    ∀ limit millis n, e.advance limit millis = some (n, e') →
      ∃ fired, e.Passes millis fired e' ∧ n = fired.length :=
  ⟨fun _ _ => passes_add, fun _ _ => passesAll_cons, fun _ _ _ => exists_passes⟩

end Engine

end SignalGraph
