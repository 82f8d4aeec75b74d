import SignalGraph.Proofs.Engine.Bookkeeping
import SignalGraph.Proofs.Engine.Renumbering

/-!
# Reloading

A load forgets everything that went before it: from then on the engine does what a fresh one does
that loads the same configuration (`Engine.AtRest.reload_forgets`). What a teardown leaves behind
(`Engine.AtRest.teardown_eq`) is a fresh engine apart from the numbers of the last load, of the last
arming and of the last timer scheduled; they are moved out of the way on both sides, which nothing
that follows takes notice of (`Engine.serveAll_renumber`).
-/

namespace SignalGraph

/-- Worlds that differ at most in the timers that wait. -/
def World.Waits {H : Type} (w w' : World H) : Prop :=
  ∃ pending, w' = { w with clock := { w.clock with pending := pending } }

namespace World.Waits

variable {H : Type} {w w' w'' : World H}

theorem refl (w : World H) : w.Waits w :=
  ⟨w.clock.pending, rfl⟩

theorem trans (h : w.Waits w') (h' : w'.Waits w'') : w.Waits w'' := by
  obtain ⟨_, rfl⟩ := h
  obtain ⟨pending, rfl⟩ := h'
  exact ⟨pending, rfl⟩

theorem service_eq (h : w.Waits w') : w'.service = w.service := by
  obtain ⟨_, rfl⟩ := h
  rfl

/-- Cancelling all timers of a list of things, each by timers it holds. -/
theorem foldl {α : Type} {f : World H → α → World H} (l : List α)
    (hf : ∀ w : World H, w.service = .shared → ∀ a, w.Waits (f w a)) (hw : w.service = .shared) :
    w.Waits (l.foldl f w) := by
  induction l generalizing w with
  | nil => exact refl w
  | cons a rest ih =>
    have hfirst := hf w hw a
    exact hfirst.trans (ih (hfirst.service_eq.trans hw))

theorem cancelTimer (timer : ArmedTimer) (hw : w.service = .shared) :
    w.Waits (w.cancelTimer timer) := by
  unfold World.cancelTimer
  cases timer.ticket with
  | none => exact refl w
  | some ticket =>
    obtain ⟨host, clock, service, nextToken, registered, queue⟩ := w
    obtain rfl : service = .shared := hw
    exact ⟨_, rfl⟩

theorem cancelTimers (r : Runner) (hw : w.service = .shared) :
    w.Waits (Engine.cancelTimers w r) := by
  unfold Engine.cancelTimers
  rw [← Array.foldl_toList]
  exact foldl _ (fun w hw n => foldl n.timers (fun w hw t => cancelTimer t hw) hw) hw

end World.Waits

namespace Engine

variable {H : Type} [Host H] {e e₀ : Engine H}

/-! ### What a teardown leaves behind -/

/-- Between two requests, a teardown leaves nothing behind but the host, the time and the numbers
given out so far. -/
theorem AtRest.teardown_eq (h : AtRest e) (hservice : e.world.service = .shared)
    (hquiet : World.QuietUnsubscribe H) : e.teardown =
      { world :=
          { host := e.teardown.world.host
            clock := { e.world.clock with pending := [] }
            nextToken := e.world.nextToken }
        settings := e.settings
        generation := e.generation
        scenes := e.scenes } := by
  have hcancelled : e.world.Waits (e.runners.foldl cancelTimers e.world) := by
    rw [← Array.foldl_toList]
    exact World.Waits.foldl _ (fun _ hw r => World.Waits.cancelTimers r hw) hservice
  obtain ⟨pending, hworld⟩ := hcancelled
  -- the host is told last, and says nothing
  have htorn : e.teardown =
      { e with
        world :=
          { e.world with
            host := e.teardown.world.host
            clock := { e.world.clock with pending := pending }
            registered := [] }
        runners := #[]
        subscribers := [] } := by
    have hlast : e.subscribers.keys.foldl World.unsubscribe (e.runners.foldl cancelTimers e.world) =
        { e.runners.foldl cancelTimers e.world with host := e.teardown.world.host } :=
      World.unsubscribe_all_eq hquiet _ _
    rw [hworld] at hlast
    unfold teardown
    dsimp only
    rw [hworld, hlast]
  have hpending : pending = [] := by
    have hlive : e.world.service ≠ .inert := by
      rw [hservice]
      exact fun h => nomatch h
    have hstopped := (h.timers_exact hlive).stopped
    unfold stop at hstopped
    rw [htorn] at hstopped
    unfold World.timeline at hstopped
    dsimp only at hstopped
    rwa [hservice] at hstopped
  refine htorn.trans ?_
  dsimp only
  rw [hpending, hservice, h.queue_eq_nil]

/-! ### Two runs -/

theorem serveAll_renumber {ρ : Renumbering} (limit : Nat) (requests : List (Request H))
    (e : Engine H) :
    (e.renumber ρ).serveAll limit requests = (e.serveAll limit requests).map (renumber ρ) := by
  induction requests generalizing e with
  | nil => rfl
  | cons request rest ih =>
    rw [serveAll, serveAll, serve_renumber]
    cases e.serve limit request with
    | none => rfl
    | some e' => exact ih e'

/-- A fresh engine that may take the place of another one: it has the same settings, its host is as
a teardown of the other engine leaves it, and its timeline shows the same times. -/
structure Replaces (e₀ e : Engine H) : Prop where
  fresh : e₀.Fresh
  settings_eq : e₀.settings = e.settings
  host_eq : e₀.world.host = e.teardown.world.host
  service_eq : e₀.world.service = .shared
  times : e₀.world.clock.SameTimes e.world.clock

/-- The numbers given out so far. -/
def counted (e : Engine H) : Renumbering :=
  { generation := e.generation, token := e.world.nextToken, number := e.world.clock.nextNumber }

/-- With the numbers of each moved behind those of the other, an engine and its replacement start a
load in one and the same state. -/
theorem Replaces.assemble_eq (h₀ : e₀.Replaces e) (h : AtRest e)
    (hservice : e.world.service = .shared) (hquiet : World.QuietUnsubscribe H) (c : Configuration) :
    (e.assemble c).renumber e₀.counted = (e₀.assemble c).renumber e.counted := by
  have hhost : e₀.teardown.world.host = e₀.world.host := by
    unfold teardown
    rw [h₀.fresh.runners, h₀.fresh.subscribers]
    rfl
  have hclock : ({ e.world.clock with pending := [] } : Timeline Fire).renumber e₀.counted =
      ({ e₀.world.clock with pending := [] } : Timeline Fire).renumber e.counted := by
    obtain ⟨hstart, helapsed, hshift⟩ := h₀.times
    have hnumber : e.world.clock.nextNumber + e₀.world.clock.nextNumber =
        e₀.world.clock.nextNumber + e.world.clock.nextNumber := Nat.add_comm _ _
    simp only [Timeline.renumber, counted, List.map_nil, hstart, helapsed, hshift, hnumber]
  rw [← assemble_renumber, ← assemble_renumber]
  unfold assemble
  rw [teardown_renumber, teardown_renumber, h.teardown_eq hservice hquiet,
    (AtRest.fresh h₀.fresh).teardown_eq h₀.service_eq hquiet]
  have hgeneration : e.generation + e₀.generation = e₀.generation + e.generation := Nat.add_comm _ _
  have htoken : e.world.nextToken + e₀.world.nextToken = e₀.world.nextToken + e.world.nextToken :=
    Nat.add_comm _ _
  simp only [renumber, World.renumber, TimerService.renumber, hclock, hhost, h₀.host_eq,
    h₀.settings_eq]
  simp only [counted, hgeneration, htoken, List.map_nil]

theorem Replaces.install_eq (h₀ : e₀.Replaces e) (h : AtRest e)
    (hservice : e.world.service = .shared) (hquiet : World.QuietUnsubscribe H) (c : Configuration) :
    (e.install c).map id (renumber e₀.counted) = (e₀.install c).map id (renumber e.counted) := by
  have hafter : (e.install c).2.renumber e₀.counted = (e₀.install c).2.renumber e.counted := by
    rw [Engine.install_eq, Engine.install_eq, ← primeAll_renumber, ← primeAll_renumber,
      ← connectAll_renumber, ← connectAll_renumber, h₀.assemble_eq h hservice hquiet]
  exact congrArg (Prod.mk (e.install c).1) hafter

/-- A load forgets everything. An engine that has been running and a fresh one that replaces it give
the same report when they load a configuration, and are in the same state after it and after every
sequence of further requests, up to the numbers of loads, armings and scheduled timers. The state of
a host may include a log of the calls made to it, so the calls are the same, too. -/
theorem AtRest.reload_forgets (h : AtRest e) (hservice : e.world.service = .shared)
    (hquiet : World.QuietUnsubscribe H) (h₀ : e₀.Replaces e) (c : Configuration) :
    ∃ ρ ρ₀ : Renumbering, ∀ limit,
      (e.load limit c).map (Prod.map id (renumber ρ)) =
          (e₀.load limit c).map (Prod.map id (renumber ρ₀)) ∧
        ∀ requests : List (Request H),
          (e.serveAll limit (.load c :: requests)).map (renumber ρ) =
            (e₀.serveAll limit (.load c :: requests)).map (renumber ρ₀) := by
  refine ⟨e₀.counted, e.counted, fun limit => ?_⟩
  have hinstall := h₀.install_eq h hservice hquiet c
  have hload (e : Engine H) (ρ : Renumbering) : (e.load limit c).map (Prod.map id (renumber ρ)) =
      (((e.install c).2.renumber ρ).settle limit).map (Prod.mk (e.install c).1) := by
    rw [settle_renumber, load, Option.map_map, Option.map_map]
    rfl
  have hsame : (e.load limit c).map (Prod.map id (renumber e₀.counted)) =
      (e₀.load limit c).map (Prod.map id (renumber e.counted)) := by
    rw [hload, hload, show (e.install c).2.renumber _ = _ from congrArg Prod.snd hinstall,
      show (e.install c).1 = (e₀.install c).1 from rfl]
    rfl
  refine ⟨hsame, fun requests => ?_⟩
  have hserve (e : Engine H) (ρ : Renumbering) :
      (e.serveAll limit (.load c :: requests)).map (renumber ρ) =
        ((e.load limit c).map (Prod.map id (renumber ρ))).bind
          fun loaded => loaded.2.serveAll limit requests := by
    rw [serveAll, Engine.serve]
    cases e.load limit c with
    | none => rfl
    | some loaded => exact (serveAll_renumber limit requests loaded.2).symm
  rw [hserve, hserve, hsame]

/-- The delay is loaded once more while it waits. -/
theorem reload_forgets_delayed :
    let e := ((new default { start := default } : Engine MemoryHost).install delayed).2
    let e₀ : Engine MemoryHost :=
      { world :=
          { host := e.teardown.world.host
            clock := { e.world.clock with nextNumber := 0, pending := [] } }
        settings := e.settings }
    e.world.timeline.pending.length = 1 ∧ e₀.world.timeline.pending = [] ∧
      ∃ ρ ρ₀ : Renumbering, ∀ limit,
        (e.load limit delayed).map (Prod.map id (renumber ρ)) =
            (e₀.load limit delayed).map (Prod.map id (renumber ρ₀)) ∧
          ∀ requests : List (Request MemoryHost),
            (e.serveAll limit (.load delayed :: requests)).map (renumber ρ) =
              (e₀.serveAll limit (.load delayed :: requests)).map (renumber ρ₀) := by
  intro e e₀
  have hqueue : e.world.queue = [] := List.isEmpty_iff.1 (by decide +kernel)
  have hservice : e.world.service = .shared := by
    have hshared : (match e.world.service with | .shared => true | _ => false) = true := by
      decide +kernel
    split at hshared
    · assumption
    · cases hshared
  refine ⟨by decide +kernel, rfl, ?_⟩
  refine AtRest.reload_forgets ((AtRest.fresh (fresh_new _ rfl)).install hqueue) hservice
    (fun _ _ => rfl) ?_ delayed
  exact ⟨⟨rfl, rfl, rfl, rfl, rfl⟩, rfl, rfl, rfl, rfl, rfl, rfl⟩

end Engine

end SignalGraph
