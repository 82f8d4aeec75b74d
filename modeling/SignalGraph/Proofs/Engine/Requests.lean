import SignalGraph.Proofs.Engine.Run

/-!
# The actions of a request

Serving a request is a run of actions, which `Engine.actions` lists (`Engine.run_actions`). Several
requests in a row are served by the actions of each (`Engine.run_actionsAll`). No action but the
first of a load is one that loads (`Engine.not_install_of_mem_actions`). In these runs time passes
only while no event waits (`Engine.AtRest.orderly`).
-/

namespace SignalGraph

namespace Engine

variable {H : Type} [Host H]

/-! ### One request -/

/-- The turns until no event waits. -/
def settling : Nat → Engine H → List (Action H)
  | limit, e =>
    match e.turn? with
    | none => []
    | some e =>
      match limit with
      | 0 => []
      | limit + 1 => .turn :: settling limit e

/-- The timeline on which timers wait is replaced. -/
def moving (e : Engine H) (t : Timeline Fire) : Action H :=
  .outside e.world.host (e.world.withTimeline t).clock (e.world.withTimeline t).service

/-- A timer falls due: the clock moves on, and the fire joins the queue. -/
def ringing (e : Engine H) (fire : Fire) (t : Timeline Fire) : Engine H :=
  e.run [e.moving t, .post (.timer fire)]

/-- The passing of time until `target`. Each fire takes at most `turns` turns. -/
def passing (turns target : Nat) : Nat → Engine H → List (Action H)
  | limit, e =>
    match e.world.timeline.popDue? target with
    | none => [e.moving (e.world.timeline.reach target)]
    | some (fire, t) =>
      match limit with
      | 0 => []
      | limit + 1 =>
        let first := settling turns (e.ringing fire t)
        e.moving t :: .post (.timer fire) ::
          (first ++ passing turns target limit ((e.ringing fire t).run first))

/-- The actions of a request. -/
def actions (limit : Nat) (e : Engine H) : Request H → List (Action H)
  | .load c => .install c :: settling limit (e.install c).2
  | .stop => [.stop]
  | .change c =>
    if e.world.registered.contains c.signal then
      .post (.change c) :: settling limit (e.act (.post (.change c)))
    else []
  | .advance millis => passing limit (e.world.timeline.elapsed + millis) limit e
  | .shiftLocal millis =>
    [.outside e.world.host (e.world.clock.shiftLocal millis) e.world.service]
  | .host host => [.outside host e.world.clock e.world.service]

variable {e e' : Engine H} {limit : Nat}

theorem run_cons (e : Engine H) (a : Action H) (as : List (Action H)) :
    e.run (a :: as) = (e.act a).run as :=
  rfl

/-- An action does not read the clock that it is about to replace. -/
theorem act_moving (e : Engine H) (t : Timeline Fire) :
    e.act (e.moving t) = { e with world := e.world.withTimeline t } := by
  show { e with world := { e.world with
    clock := (e.world.withTimeline t).clock, service := (e.world.withTimeline t).service } } = _
  unfold World.withTimeline
  split <;> rfl

/-- A fire that rings is posted once the clock shows its time. -/
theorem ringing_eq (e : Engine H) (fire : Fire) (t : Timeline Fire) :
    e.ringing fire t = ({ e with world := e.world.withTimeline t } : Engine H).act
      (.post (.timer fire)) := by
  rw [ringing, run_cons, act_moving]
  rfl

/-- The first turn that is needed, and the turns after it. -/
theorem settling_of_turn? {e₁ : Engine H} (hturn : e.turn? = some e₁)
    (h : settle limit e = some e') :
    ∃ rest, settle rest e₁ = some e' ∧ settling limit e = .turn :: settling rest e₁ := by
  unfold settle at h
  rw [hturn] at h
  cases limit with
  | zero => cases h
  | succ rest =>
    refine ⟨rest, h, ?_⟩
    conv_lhs => unfold settling
    rw [hturn]

/-- What holds of no turns, and of a turn together with those that follow it, holds of all turns
that are needed. -/
theorem settling_induct {R : Engine H → List (Action H) → Engine H → Prop}
    (hnone : ∀ {e : Engine H}, e.turn? = none → R e [] e)
    (hturn : ∀ {e e₁ e' : Engine H} {as : List (Action H)}, e.turn? = some e₁ → R e₁ as e' →
      R e (.turn :: as) e') (h : settle limit e = some e') : R e (settling limit e) e' := by
  -- the limit is the number of turns that are left, and it suffices
  induction limit generalizing e with
  | zero =>
    unfold settle at h
    unfold settling
    cases hfirst : e.turn? with
    | none =>
      rw [hfirst] at h
      cases h
      exact hnone hfirst
    | some e₁ =>
      rw [hfirst] at h
      cases h
  | succ limit ih =>
    unfold settle at h
    unfold settling
    cases hfirst : e.turn? with
    | none =>
      rw [hfirst] at h
      cases h
      exact hnone hfirst
    | some e₁ =>
      rw [hfirst] at h
      exact hturn hfirst (ih h)

/-- The turns that settle the engine lead where settling leads. -/
theorem run_settling (h : settle limit e = some e') : e.run (settling limit e) = e' := by
  refine settling_induct (R := fun e as e' => e.run as = e') (fun _ => rfl) ?_ h
  intro e e₁ e' as hturn hrest
  rw [run_cons, act_turn hturn]
  exact hrest

/-- What holds at the end of the time that passes, and of each fire together with what follows it,
holds of the time that passes. -/
theorem passing_induct {R : Engine H → List (Action H) → Engine H → Prop} {turns target n m : Nat}
    (hreach : ∀ {e : Engine H}, e.world.timeline.popDue? target = none →
      R e [e.moving (e.world.timeline.reach target)]
        { e with world := e.world.withTimeline (e.world.timeline.reach target) })
    (hfire : ∀ {e e₁ e' : Engine H} {fire : Fire} {t : Timeline Fire} {as : List (Action H)},
      e.world.timeline.popDue? target = some (fire, t) →
      settle turns (e.ringing fire t) = some e₁ → R e₁ as e' →
      R e (e.moving t :: .post (.timer fire) :: (settling turns (e.ringing fire t) ++ as)) e')
    (h : (owner turns).advanceTo target limit n e = some (m, e')) :
    R e (passing turns target limit e) e' := by
  induction limit using Nat.strongRecOn generalizing e n with
  | ind limit ih =>
    -- nothing is due until `target`, or a timer fires and the rest of the time passes after it
    rcases Owner.advanceTo_cases h with
      ⟨hnone, rfl⟩ | ⟨rest, fire, t, e₁, rfl, hpop, hsubmit, hrest⟩
    · unfold passing
      rw [show e.world.timeline.popDue? target = none from hnone]
      exact hreach hnone
    · have hsettle : settle turns (e.ringing fire t) = some e₁ := by
        rw [ringing_eq]
        exact hsubmit
      unfold passing
      rw [show e.world.timeline.popDue? target = some (fire, t) from hpop]
      dsimp only
      rw [run_settling hsettle]
      exact hfire hpop hsettle (ih rest (Nat.lt_succ_self rest) hrest)

/-- The actions of an advance lead where the advance leads. -/
theorem run_passing {turns target n m : Nat}
    (h : (owner turns).advanceTo target limit n e = some (m, e')) :
    e.run (passing turns target limit e) = e' := by
  refine passing_induct (R := fun e as e' => e.run as = e') ?_ ?_ h
  · intro e _
    exact act_moving e _
  · intro e e₁ e' fire t as _ hsettle hrest
    have hfirst := run_settling hsettle
    show (e.ringing fire t).run (_ ++ as) = e'
    rw [run_append, hfirst, hrest]

/-- Serving a request is a run of its actions. -/
theorem run_actions {request : Request H} (h : e.serve limit request = some e') :
    e.run (e.actions limit request) = e' := by
  cases request with
  | load c =>
    obtain ⟨⟨report, e''⟩, hload, rfl⟩ := Option.map_eq_some_iff.1 h
    obtain ⟨e₁, hsettle, heq⟩ := Option.map_eq_some_iff.1 hload
    cases heq
    exact run_settling hsettle
  | stop => exact Option.some.inj h
  | change c =>
    dsimp only [serve, change] at h
    -- a change of a signal without subscribers is dropped and performs no action
    unfold actions
    dsimp only
    split at h
    · next hregistered =>
      rw [if_pos hregistered]
      exact run_settling h
    · next hregistered =>
      rw [if_neg hregistered]
      exact Option.some.inj h
  | advance millis =>
    obtain ⟨⟨n, e''⟩, hadvance, rfl⟩ := Option.map_eq_some_iff.1 h
    exact run_passing hadvance
  | shiftLocal millis => exact Option.some.inj h
  | host host => exact Option.some.inj h

/-! ### Loads -/

/-- Settling loads no configuration. -/
theorem not_install_of_mem_settling {a : Action H} (ha : a ∈ settling limit e) (c : Configuration) :
    a ≠ .install c := by
  -- every action of settling is a turn; without fuel there is none at all
  induction limit generalizing e with
  | zero =>
    have hnil : settling 0 e = [] := by
      unfold settling
      cases e.turn? <;> rfl
    rw [hnil] at ha
    cases ha
  | succ limit ih =>
    unfold settling at ha
    cases hturn : e.turn? with
    | none =>
      rw [hturn] at ha
      cases ha
    | some e'' =>
      rw [hturn] at ha
      rcases List.mem_cons.1 ha with rfl | ha
      · exact nofun
      · exact ih ha

theorem not_install_of_mem_passing {turns target n m : Nat}
    (h : (owner turns).advanceTo target limit n e = some (m, e')) :
    ∀ a ∈ passing turns target limit e, ∀ c, a ≠ .install c := by
  refine passing_induct (R := fun _ as _ => ∀ a ∈ as, ∀ c, a ≠ .install c) ?_ ?_ h
  · intro e _ a ha c
    rw [List.mem_singleton.1 ha]
    exact nofun
  · intro e e₁ e' fire t as _ _ has a ha c
    rcases List.mem_cons.1 ha with rfl | ha
    · exact nofun
    rcases List.mem_cons.1 ha with rfl | ha
    · exact nofun
    rcases List.mem_append.1 ha with ha | ha
    · exact not_install_of_mem_settling ha c
    · exact has a ha c

/-- Only the actions of a load contain one. -/
theorem not_install_of_mem_actions {request : Request H} (h : e.serve limit request = some e')
    (hrequest : ∀ c, request ≠ .load c) : ∀ a ∈ e.actions limit request, ∀ c, a ≠ .install c := by
  intro a ha c
  cases request with
  | load c' => exact (hrequest c' rfl).elim
  | change c' =>
    unfold actions at ha
    dsimp only at ha
    split at ha
    · rcases List.mem_cons.1 ha with rfl | ha
      · exact nofun
      · exact not_install_of_mem_settling ha c
    · cases ha
  | advance millis =>
    obtain ⟨⟨n, e''⟩, hadvance, rfl⟩ := Option.map_eq_some_iff.1 h
    exact not_install_of_mem_passing hadvance a ha c
  | stop | shiftLocal | host =>
    rw [List.mem_singleton.1 ha]
    exact nofun

/-! ### Several requests -/

/-- Requests are served one after the other. -/
theorem serveAll_append {requests requests' : List (Request H)} :
    e.serveAll limit (requests ++ requests') =
      (e.serveAll limit requests).bind fun e₁ => e₁.serveAll limit requests' := by
  induction requests generalizing e with
  | nil => rfl
  | cons request rest ih =>
    rw [List.cons_append, serveAll, serveAll, Option.bind_assoc]
    exact congrArg (e.serve limit request).bind (funext fun _ => ih)

/-- An engine that has served its requests is at rest again. -/
theorem AtRest.serveAll {requests : List (Request H)} (hrest : AtRest e)
    (h : e.serveAll limit requests = some e') : AtRest e' := by
  induction requests generalizing e with
  | nil =>
    cases h
    exact hrest
  | cons request rest ih =>
    obtain ⟨e₁, hfirst, hlater⟩ := Option.bind_eq_some_iff.1 h
    exact ih (hrest.serve limit request hfirst) hlater

/-- The actions of several requests. -/
def actionsAll (limit : Nat) : Engine H → List (Request H) → List (Action H)
  | _, [] => []
  | e, request :: rest =>
    e.actions limit request ++ actionsAll limit (e.run (e.actions limit request)) rest

/-- The actions of a list of requests lead where serving them leads. -/
theorem run_actionsAll {requests : List (Request H)} (h : e.serveAll limit requests = some e') :
    e.run (e.actionsAll limit requests) = e' := by
  induction requests generalizing e with
  | nil => exact Option.some.inj h
  | cons request rest ih =>
    obtain ⟨e₁, hfirst, hrest⟩ := Option.bind_eq_some_iff.1 h
    rw [actionsAll, run_append]
    rw [run_actions hfirst]
    exact ih hrest

/-- Requests other than loads load no configuration. -/
theorem not_install_of_mem_actionsAll {requests : List (Request H)}
    (h : e.serveAll limit requests = some e')
    (hrequests : ∀ request ∈ requests, ∀ c, request ≠ .load c) :
    ∀ a ∈ e.actionsAll limit requests, ∀ c, a ≠ .install c := by
  induction requests generalizing e with
  | nil => exact nofun
  | cons request rest ih =>
    obtain ⟨e₁, hfirst, hrest⟩ := Option.bind_eq_some_iff.1 h
    intro a ha c
    rw [actionsAll, run_actions hfirst] at ha
    rcases List.mem_append.1 ha with ha | ha
    · exact not_install_of_mem_actions hfirst (hrequests request List.mem_cons_self) a ha c
    · exact ih hrest (fun request h => hrequests request (List.mem_cons_of_mem _ h)) a ha c

/-- The actions of a load, and of requests after it that do not load anything. -/
theorem exists_actionsAll {c : Configuration} {requests : List (Request H)}
    (h : e.serveAll limit (.load c :: requests) = some e')
    (hrequests : ∀ request ∈ requests, ∀ c, request ≠ .load c) :
    ∃ as, e.actionsAll limit (.load c :: requests) = .install c :: as ∧
      ∀ a ∈ as, ∀ c, a ≠ .install c := by
  obtain ⟨e₁, hload, hrest⟩ := Option.bind_eq_some_iff.1 h
  refine ⟨settling limit (e.install c).2 ++ e₁.actionsAll limit requests, ?_, ?_⟩
  · rw [actionsAll, run_actions hload]
    rfl
  · intro a ha c'
    rcases List.mem_append.1 ha with ha | ha
    · exact not_install_of_mem_settling ha c'
    · exact not_install_of_mem_actionsAll hrest hrequests a ha c'

/-! ### Orderly runs -/

/-- A run in which time passes only while no event waits: the clock moves on to the next timer that
is due, whose fire is handled at once, or, if none is due until then, to the end of the time that
passes. -/
inductive Orderly : Engine H → List (Action H) → Prop
  | nil {e : Engine H} : Orderly e []
  | install {e : Engine H} {as : List (Action H)} (c : Configuration)
    (h : Orderly (e.act (.install c)) as) : Orderly e (.install c :: as)
  | stop {e : Engine H} {as : List (Action H)} (h : Orderly (e.act .stop) as) :
    Orderly e (.stop :: as)
  | change {e : Engine H} {as : List (Action H)} (c : Change)
    (h : Orderly (e.act (.post (.change c))) as) : Orderly e (.post (.change c) :: as)
  | turn {e : Engine H} {as : List (Action H)} (h : Orderly (e.act .turn) as) :
    Orderly e (.turn :: as)
  | fire {e : Engine H} {as : List (Action H)} {target : Nat} {fire : Fire} {t : Timeline Fire}
    (hqueue : e.world.queue = []) (hpop : e.world.timeline.popDue? target = some (fire, t))
    (h : Orderly ((e.ringing fire t).act .turn) as) :
    Orderly e (e.moving t :: .post (.timer fire) :: .turn :: as)
  | reach {e : Engine H} {as : List (Action H)} {target : Nat} (hqueue : e.world.queue = [])
    (hpop : e.world.timeline.popDue? target = none)
    (h : Orderly (e.act (e.moving (e.world.timeline.reach target))) as) :
    Orderly e (e.moving (e.world.timeline.reach target) :: as)
  | shiftLocal {e : Engine H} {as : List (Action H)} (millis : Int)
    (h : Orderly (e.shiftLocal millis) as) :
    Orderly e (.outside e.world.host (e.world.clock.shiftLocal millis) e.world.service :: as)
  | host {e : Engine H} {as : List (Action H)} (host : H)
    (h : Orderly (e.act (.outside host e.world.clock e.world.service)) as) :
    Orderly e (.outside host e.world.clock e.world.service :: as)

theorem Orderly.append {as bs : List (Action H)} (h : e.Orderly as) (h' : (e.run as).Orderly bs) :
    e.Orderly (as ++ bs) := by
  induction h with
  | nil => exact h'
  | install c _ ih => exact .install c (ih h')
  | stop _ ih => exact .stop (ih h')
  | change c _ ih => exact .change c (ih h')
  | turn _ ih => exact .turn (ih h')
  | fire hqueue hpop _ ih => exact .fire hqueue hpop (ih h')
  | reach hqueue hpop _ ih => exact .reach hqueue hpop (ih h')
  | shiftLocal millis _ ih => exact .shiftLocal millis (ih h')
  | host host _ ih => exact .host host (ih h')

/-- The state before the turn of a fire. -/
theorem ringing_eq_withQueue {fire : Fire} {t : Timeline Fire} (hqueue : e.world.queue = []) :
    e.ringing fire t =
      ({ e with world := e.world.withTimeline t } : Engine H).withQueue [.timer fire] := by
  rw [ringing_eq]
  show ({ e with world := e.world.withTimeline t } : Engine H).withQueue
    ((e.world.withTimeline t).queue ++ [.timer fire]) = _
  rw [World.queue_withTimeline, hqueue]
  rfl

/-- The fire that has just rung is the event of the next turn. -/
theorem turn?_ringing {fire : Fire} {t : Timeline Fire} (hqueue : e.world.queue = []) :
    (e.ringing fire t).turn? =
      some (handle { e with world := e.world.withTimeline t } (.timer fire)) := by
  have hnil : (e.world.withTimeline t).queue = [] := by
    rw [World.queue_withTimeline, hqueue]
  have hworld : { e.world.withTimeline t with queue := [] } = e.world.withTimeline t := by
    rw [← hnil]
  rw [ringing_eq_withQueue hqueue]
  show some (handle { e with world := { e.world.withTimeline t with queue := [] } }
    (.timer fire)) = _
  rw [hworld]

theorem orderly_settling (h : settle limit e = some e') : e.Orderly (settling limit e) := by
  refine settling_induct (R := fun e as _ => e.Orderly as) (fun _ => .nil) ?_ h
  intro e e₁ e' as hturn has
  refine .turn ?_
  rw [act_turn hturn]
  exact has

/-- While time passes, every fire is posted to an empty queue and handled before the next one
rings. -/
theorem orderly_passing {turns target n m : Nat} (hqueue : e.world.queue = [])
    (h : (owner turns).advanceTo target limit n e = some (m, e')) :
    e.Orderly (passing turns target limit e) := by
  refine passing_induct (R := fun e as _ => e.world.queue = [] → e.Orderly as) ?_ ?_ h hqueue
  · intro e hpop hqueue
    exact .reach hqueue hpop .nil
  · intro e e₁ e' fire t as hpop hsettle has hqueue
    -- the fire is alone in the queue, so the first turn handles it
    obtain ⟨rest, hrest, hsettling⟩ := settling_of_turn? (turn?_ringing hqueue) hsettle
    rw [hsettling, List.cons_append]
    refine .fire hqueue hpop ?_
    rw [act_turn (turn?_ringing hqueue)]
    refine (orderly_settling hrest).append ?_
    rw [run_settling hrest]
    exact has (queue_eq_nil_of_settle hrest)

/-- Serving a request is an orderly run. -/
theorem orderly_actions {request : Request H} (hqueue : e.world.queue = [])
    (h : e.serve limit request = some e') : e.Orderly (e.actions limit request) := by
  cases request with
  | load c =>
    obtain ⟨⟨report, e''⟩, hload, rfl⟩ := Option.map_eq_some_iff.1 h
    obtain ⟨e₁, hsettle, heq⟩ := Option.map_eq_some_iff.1 hload
    exact .install c (orderly_settling hsettle)
  | stop => exact .stop .nil
  | change c =>
    dsimp only [serve, change] at h
    unfold actions
    dsimp only
    split at h
    · next hregistered =>
      rw [if_pos hregistered]
      exact .change c (orderly_settling h)
    · next hregistered =>
      rw [if_neg hregistered]
      exact .nil
  | advance millis =>
    obtain ⟨⟨n, e''⟩, hadvance, rfl⟩ := Option.map_eq_some_iff.1 h
    exact orderly_passing hqueue hadvance
  | shiftLocal millis => exact .shiftLocal millis .nil
  | host host => exact .host host .nil

/-- Serving requests, one after the other, is an orderly run. -/
theorem AtRest.orderly {requests : List (Request H)} (hrest : AtRest e)
    (h : e.serveAll limit requests = some e') : e.Orderly (e.actionsAll limit requests) := by
  induction requests generalizing e with
  | nil => exact .nil
  | cons request rest ih =>
    obtain ⟨e₁, hfirst, hlater⟩ := Option.bind_eq_some_iff.1 h
    refine (orderly_actions hrest.queue_eq_nil hfirst).append ?_
    rw [run_actions hfirst]
    exact ih (hrest.serve limit request hfirst) hlater

end Engine

end SignalGraph
