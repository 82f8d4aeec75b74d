import SignalGraph.Proofs.Node.Arming
import SignalGraph.Proofs.Node.Solitary

/-!
# The length of pulses

Edge detectors, pulses and staircase lights show true exactly while their timer is armed, and the
timer is due one pulse length after the pulse began (`Node.Lives.momentary`). They differ in when
that is (`Node.Began`): at the last edge for an edge detector, at the last rise of `in` for a
staircase light, unless `off` has risen since, and for a pulse at an edge that came while no timer
was armed. When a timer fires, the pulse has lasted exactly its length (`Node.Lives.ended`).
-/

namespace SignalGraph

/-- The types whose outputs are true for a time after an edge. -/
def NodeType.isMomentary : NodeType → Bool
  | .edge | .edgeRising | .edgeFalling | .edgeBoth | .pulse | .staircase => true
  | _ => false

section Parameters

variable {p : Params}

theorem EdgeDetector.level_of_ofParams {fixed : Option EdgeKind} {e : EdgeDetector}
    (h : ofParams p fixed = .ok e) : e.level = false := by
  unfold ofParams at h
  cases fixed with
  | some _ | none =>
    obtain ⟨kind, -, h⟩ := exists_of_bind_eq_ok h
    obtain ⟨pulse, -, h⟩ := exists_of_bind_eq_ok h
    cases h
    rfl

theorem Pulse.level_of_ofParams {b : Pulse} (h : ofParams p = .ok b) : b.level = false := by
  obtain ⟨duration, -, h⟩ := exists_of_bind_eq_ok h
  obtain ⟨kind, -, h⟩ := exists_of_bind_eq_ok h
  cases h
  rfl

theorem Staircase.levels_of_ofParams {s : Staircase} (h : ofParams p = .ok s) :
    s.level = false ∧ s.offLevel = false := by
  obtain ⟨duration, -, h⟩ := exists_of_bind_eq_ok h
  cases h
  exact ⟨rfl, rfl⟩

namespace Behavior

/-- The key of the timer that ends a pulse. -/
def endKey? : Behavior → Option TimerKey
  | .edge _ => some .reset
  | .pulse _ | .staircase _ => some .main
  | _ => none

theorem inputBridge?_of_endKey? {b : Behavior} {key : TimerKey} (h : b.endKey? = some key) :
    b.inputBridge? = none := by
  cases b with
  | inputBridge => cases h
  | _ => rfl

/-- A pulse has a length. -/
theorem exists_length_of_endKey? {b : Behavior} {key : TimerKey} (h : b.endKey? = some key) :
    ∃ length, b.length? = some length := by
  cases b with
  | edge | pulse | staircase => exact ⟨_, rfl⟩
  | _ => cases h

theorem staircase_of_ofParams {ty : NodeType} {s : Staircase}
    (h : ofParams ty p = .ok (.staircase s)) : ty = .staircase := by
  cases builds_of_ofParams h with
  | staircase => rfl

theorem exists_staircase {b : Behavior} {s : Staircase}
    (h : b.parameters = parameters (.staircase s)) : ∃ s₀, b = .staircase s₀ := by
  cases b with
  | staircase s₀ => exact ⟨s₀, rfl⟩
  | _ => cases h

end Behavior

end Parameters

/-! ### One evaluation -/

/-- When the timer is due after an evaluation on the inputs, given when it was due before. -/
def EdgeDetector.next? (e : EdgeDetector) (now : Bool) (due? : Option Nat) (time : Nat) :
    Option Nat :=
  if e.kind.isEdge e.level now then some (time + e.pulse) else due?

/-- When the timer is due after an evaluation on the inputs, given when it was due before. -/
def Pulse.next? (p : Pulse) (now : Bool) (due? : Option Nat) (time : Nat) : Option Nat :=
  if p.kind.isEdge p.level now && due?.isNone then some (time + p.duration) else due?

/-- When the timer is due after an evaluation on the inputs, given when it was due before. -/
def Staircase.next? (s : Staircase) (now off : Bool) (due? : Option Nat) (time : Nat) :
    Option Nat :=
  if isRise s.offLevel off then none
  else if isRise s.level now then some (time + s.duration)
  else due?

namespace Node

variable {n₀ n n' m : Node} {out : Bool} {due? : Option Nat} {eps : List Episode} {ep : Episode}
  {start : Moment} {time : Nat} {reading : Reading} {commands : List Command}

theorem Evaluates.edge {e : EdgeDetector} (h : m.Evaluates .inputs time reading commands n')
    (he : m.behavior = .edge e) (hstands : m.Stands .reset due?.isSome due?) :
    n'.behavior = .edge { e with level := n'.level 0 } ∧
      n'.Displays .reset (e.next? (n'.level 0) due? time).isSome
        (e.next? (n'.level 0) due? time) := by
  have hreact : m.behavior.react (m.view .inputs reading) =
      .ok ((e.onInputs (m.view .inputs reading)).map .edge) := by
    rw [he]
    rfl
  unfold EdgeDetector.onInputs at hreact
  dsimp only at hreact
  rw [level_view, output_view, hstands.settled_eq] at hreact
  rw [h.level_eq, EdgeDetector.next?]
  cases hedge : e.kind.isEdge e.level (m.level 0) with
  | true =>
    rw [hedge] at hreact
    obtain ⟨hbehavior, houtputs, hobeys⟩ := h.of_react hreact
    exact ⟨hbehavior, houtputs, hstands.sole.arm hobeys⟩
  | false =>
    rw [hedge] at hreact
    obtain ⟨hbehavior, houtputs, hobeys⟩ := h.of_react hreact
    exact ⟨hbehavior, houtputs, hstands.sole.nil hobeys⟩

theorem Evaluates.pulse {p : Pulse} (h : m.Evaluates .inputs time reading commands n')
    (hp : m.behavior = .pulse p) (hstands : m.Stands .main due?.isSome due?) :
    n'.behavior = .pulse { p with level := n'.level 0 } ∧
      n'.Displays .main (p.next? (n'.level 0) due? time).isSome (p.next? (n'.level 0) due? time) ∧
      ((p.kind.isEdge p.level (n'.level 0) && due?.isNone) = false → n'.timers = m.timers) := by
  have hreact : m.behavior.react (m.view .inputs reading) =
      .ok ((p.react (m.view .inputs reading)).map .pulse) := by
    rw [hp]
    rfl
  unfold Pulse.react at hreact
  dsimp only [trigger_view] at hreact
  rw [level_view, output_view, isArmed_view, hstands.settled_eq, hstands.sole.isArmed_eq,
    Option.not_isSome] at hreact
  rw [h.level_eq, Pulse.next?]
  cases hstarts : p.kind.isEdge p.level (m.level 0) && due?.isNone with
  | true =>
    rw [hstarts] at hreact
    obtain ⟨hbehavior, houtputs, hobeys⟩ := h.of_react hreact
    exact ⟨hbehavior, ⟨houtputs, hstands.sole.arm hobeys⟩, nofun⟩
  | false =>
    rw [hstarts] at hreact
    obtain ⟨hbehavior, houtputs, hobeys⟩ := h.of_react hreact
    exact ⟨hbehavior, ⟨houtputs, hstands.sole.nil hobeys⟩, fun _ => hobeys.eq_of_nil⟩

theorem Evaluates.staircase {s : Staircase} (h : m.Evaluates .inputs time reading commands n')
    (hs : m.behavior = .staircase s) (hstands : m.Stands .main due?.isSome due?) :
    n'.behavior = .staircase { s with level := n'.level 0, offLevel := n'.level 1 } ∧
      n'.Displays .main (s.next? (n'.level 0) (n'.level 1) due? time).isSome
        (s.next? (n'.level 0) (n'.level 1) due? time) := by
  have hreact : m.behavior.react (m.view .inputs reading) =
      .ok ((s.react (m.view .inputs reading)).map .staircase) := by
    rw [hs]
    rfl
  unfold Staircase.react at hreact
  dsimp only [trigger_view] at hreact
  rw [level_view, level_view, output_view, hstands.settled_eq] at hreact
  rw [h.level_eq, h.level_eq, Staircase.next?]
  -- the switch that turns the light off goes first, as in the reaction
  cases hoff : isRise s.offLevel (m.level 1) with
  | true =>
    rw [hoff] at hreact
    obtain ⟨hbehavior, houtputs, hobeys⟩ := h.of_react hreact
    exact ⟨hbehavior, houtputs, hstands.sole.cancel hobeys⟩
  | false =>
    rw [hoff] at hreact
    cases hrise : isRise s.level (m.level 0) with
    | true =>
      rw [hrise] at hreact
      obtain ⟨hbehavior, houtputs, hobeys⟩ := h.of_react hreact
      exact ⟨hbehavior, houtputs, hstands.sole.arm hobeys⟩
    | false =>
      rw [hrise] at hreact
      obtain ⟨hbehavior, houtputs, hobeys⟩ := h.of_react hreact
      exact ⟨hbehavior, houtputs, hstands.sole.nil hobeys⟩

/-- A fire ends the pulse and changes nothing else. -/
theorem Evaluates.ends {key : TimerKey} (h : m.Evaluates (.timer key) time reading commands n')
    (hkey : m.behavior.endKey? = some key) (htimers : m.timers = []) :
    n'.behavior = m.behavior ∧ n'.Displays key false none := by
  have hsole : m.timers.Sole key none := htimers
  have hreact : m.behavior.react (m.view (.timer key) reading) =
      .ok (.out m.behavior (.bool false)) := by
    cases hb : m.behavior with
    | edge | pulse | staircase =>
      rw [hb] at hkey
      cases hkey
      rfl
    | _ =>
      rw [hb] at hkey
      cases hkey
  obtain ⟨hbehavior, houtputs, hobeys⟩ := h.of_react hreact
  exact ⟨hbehavior, houtputs, hsole.nil hobeys⟩

/-! ### The beginning of a pulse -/

/-- The pulse that the node shows began then, with an edge of the first port that came while no
timer was armed. Its timer has not changed since. -/
inductive Onset (kind : EdgeKind) (n : Node) (eps : List Episode) (start : Nat) : Prop
  | intro {before after : List Episode} {ep : Episode} {n₀ n₁ n₂ : Node} (hfresh : n₀.Fresh)
    (hbefore : n₀.Lives before n₁) (hundergoes : n₁.Undergoes ep n₂) (hafter : n₂.Lives after n)
    (heps : eps = before ++ ep :: after) (htime : ep.time = start) (hidle : n₁.timers = [])
    (hedge : kind.isEdge (n₁.level 0) (n₂.level 0) = true) (hkept : n.timers = n₂.timers)

/-- The pulse that the node shows began at this virtual time. -/
def Began (n : Node) (eps : List Episode) (start : Nat) : Prop :=
  match n.behavior with
  | .pulse p => n.Onset p.kind eps start
  | .edge e => lastEdge? e.kind [0] eps = some ⟨0, start⟩
  -- neither has port 1, `off`, risen since then
  | .staircase _ => lastEdge? .rising [0, 1] eps = some ⟨0, start⟩
  | _ => False

/-- The node has seen these levels at its ports when it was evaluated last. -/
def Saw (n : Node) (level : Nat → Bool) : Prop :=
  match n.behavior with
  | .pulse p => p.level = level 0
  | .edge e => e.level = level 0
  | .staircase s => s.level = level 0 ∧ s.offLevel = level 1
  | _ => False

/-- The node gives pulses. If its timer is armed, it is due when the pulse ends. -/
structure Pulses (n : Node) (key : TimerKey) (eps : List Episode) (due? : Option Nat) : Prop where
  endKey?_eq : n.behavior.endKey? = some key
  saw : n.Saw (levels (stores eps))
  began : ∀ due, due? = some due → ∃ start duration, n.Began eps start ∧
    n.behavior.length? = some duration ∧ due = start + duration

theorem Onset.concat {kind : EdgeKind} {start : Nat} (h : n.Onset kind eps start)
    (hundergoes : n.Undergoes ep n') (htimers : n'.timers = n.timers) :
    n'.Onset kind (eps ++ [ep]) start := by
  obtain ⟨hfresh, hbefore, hfirst, hafter, rfl, htime, hidle, hedge, hkept⟩ := h
  refine ⟨hfresh, hbefore, hfirst, hafter.snoc hundergoes, ?_, htime, hidle, hedge,
    htimers.trans hkept⟩
  rw [List.append_assoc]
  rfl

/-! ### Evaluations keep pulses -/

section Inputs

variable {key : TimerKey}

theorem Pulses.edge {e : EdgeDetector} (h : n.Pulses key eps due?) (he : n.behavior = .edge e)
    (hbehavior : m.behavior = n.behavior) (hstands : m.Stands key due?.isSome due?)
    (hevaluates : m.Evaluates .inputs ep.time ep.reading ep.commands n')
    (hlevel : n'.level 0 = levels (stores (eps ++ [ep])) 0) :
    ∃ due?', n'.Displays key due?'.isSome due?' ∧ n'.Pulses key (eps ++ [ep]) due?' := by
  obtain ⟨hkey, hsaw, hbegan⟩ := h
  rw [he] at hkey hbegan
  rw [Saw, he] at hsaw
  cases hkey
  obtain ⟨hn', hdisplays⟩ := hevaluates.edge (hbehavior.trans he) hstands
  refine ⟨_, hdisplays, ?_, ?_, ?_⟩
  · rw [hn']
    rfl
  · rw [Saw, hn']
    exact hlevel
  · rw [hn', hlevel, EdgeDetector.next?, hsaw]
    intro due hdue
    cases hedge : e.kind.isEdge (levels (stores eps) 0) (levels (stores (eps ++ [ep])) 0) with
    | true =>
      -- the pulse begins anew
      rw [hedge] at hdue
      cases hdue
      refine ⟨ep.time, e.pulse, ?_, rfl, rfl⟩
      rw [Began, hn']
      exact lastEdge?_concat_of_isEdge [] hedge
    | false =>
      rw [hedge] at hdue
      obtain ⟨start, duration, hstart, hlength, hend⟩ := hbegan due hdue
      refine ⟨start, duration, ?_, hlength, hend⟩
      rw [Began, he] at hstart
      rw [Began, hn']
      have hsame : lastEdge? e.kind [0] (eps ++ [ep]) = lastEdge? e.kind [0] eps := by
        refine lastEdge?_concat_of_not_isEdge fun port hport => ?_
        rw [List.mem_singleton.1 hport]
        exact hedge
      exact hsame.trans hstart

theorem Pulses.staircase {s : Staircase} (h : n.Pulses key eps due?)
    (hs : n.behavior = .staircase s) (hbehavior : m.behavior = n.behavior)
    (hstands : m.Stands key due?.isSome due?)
    (hevaluates : m.Evaluates .inputs ep.time ep.reading ep.commands n')
    (hlevel : n'.level 0 = levels (stores (eps ++ [ep])) 0)
    (hoffLevel : n'.level 1 = levels (stores (eps ++ [ep])) 1) :
    ∃ due?', n'.Displays key due?'.isSome due?' ∧ n'.Pulses key (eps ++ [ep]) due?' := by
  obtain ⟨hkey, hsaw, hbegan⟩ := h
  rw [hs] at hkey hbegan
  rw [Saw, hs] at hsaw
  cases hkey
  obtain ⟨hn', hdisplays⟩ := hevaluates.staircase (hbehavior.trans hs) hstands
  refine ⟨_, hdisplays, ?_, ?_, ?_⟩
  · rw [hn']
    rfl
  · rw [Saw, hn']
    exact ⟨hlevel, hoffLevel⟩
  · rw [hn', hlevel, hoffLevel, Staircase.next?, hsaw.1, hsaw.2]
    intro due hdue
    cases hoff : isRise (levels (stores eps) 1) (levels (stores (eps ++ [ep])) 1) with
    | true =>
      rw [hoff] at hdue
      cases hdue
    | false =>
      rw [hoff] at hdue
      cases hrise : isRise (levels (stores eps) 0) (levels (stores (eps ++ [ep])) 0) with
      | true =>
        -- the pulse begins anew
        rw [hrise] at hdue
        cases hdue
        refine ⟨ep.time, s.duration, ?_, rfl, rfl⟩
        rw [Began, hn']
        exact lastEdge?_concat_of_isEdge_of_not_isEdge [] hrise hoff
      | false =>
        rw [hrise] at hdue
        obtain ⟨start, duration, hstart, hlength, hend⟩ := hbegan due hdue
        refine ⟨start, duration, ?_, hlength, hend⟩
        rw [Began, hs] at hstart
        rw [Began, hn']
        have hsame : lastEdge? .rising [0, 1] (eps ++ [ep]) = lastEdge? .rising [0, 1] eps := by
          refine lastEdge?_concat_of_not_isEdge fun port hport => ?_
          rcases List.mem_pair.1 hport with rfl | rfl
          · exact hrise
          · exact hoff
        exact hsame.trans hstart

theorem Pulses.pulse {p : Pulse} (h : n.Pulses key eps due?) (hp : n.behavior = .pulse p)
    (hfresh : n₀.Fresh) (hlives : n₀.Lives eps n) (hundergoes : n.Undergoes ep n')
    (hbehavior : m.behavior = n.behavior) (htimers : m.timers = n.timers)
    (hstands : m.Stands key due?.isSome due?)
    (hevaluates : m.Evaluates .inputs ep.time ep.reading ep.commands n')
    (hbefore : n.level 0 = levels (stores eps) 0)
    (hlevel : n'.level 0 = levels (stores (eps ++ [ep])) 0) :
    ∃ due?', n'.Displays key due?'.isSome due?' ∧ n'.Pulses key (eps ++ [ep]) due?' := by
  obtain ⟨hkey, hsaw, hbegan⟩ := h
  rw [hp] at hkey hbegan
  rw [Saw, hp] at hsaw
  cases hkey
  obtain ⟨hn', hdisplays, hkept⟩ := hevaluates.pulse (hbehavior.trans hp) hstands
  refine ⟨_, hdisplays, ?_, ?_, ?_⟩
  · rw [hn']
    rfl
  · rw [Saw, hn']
    exact hlevel
  · rw [hn', Pulse.next?]
    intro due hdue
    cases hstarts : p.kind.isEdge p.level (n'.level 0) && due?.isNone with
    | true =>
      -- no timer is armed before the edge, so a pulse begins
      rw [hstarts] at hdue
      cases hdue
      obtain ⟨hedge, hnone⟩ := Bool.and_eq_true_iff.1 hstarts
      have hidle : n.timers = [] := by
        have hsole := hstands.sole
        rw [Option.isNone_iff_eq_none.1 hnone, htimers] at hsole
        exact hsole
      refine ⟨ep.time, p.duration, ?_, rfl, rfl⟩
      rw [Began, hn']
      rw [hsaw, ← hbefore] at hedge
      exact ⟨hfresh, hlives, hundergoes, .nil, rfl, rfl, hidle, hedge, rfl⟩
    | false =>
      rw [hstarts] at hdue
      obtain ⟨start, duration, hstart, hlength, hend⟩ := hbegan due hdue
      refine ⟨start, duration, ?_, hlength, hend⟩
      rw [Began, hp] at hstart
      rw [Began, hn']
      exact hstart.concat hundergoes ((hkept hstarts).trans htimers)

end Inputs

/-! ### New nodes -/

/-- A node that gives pulses has not given any when it is new. -/
theorem Fresh.pulses (h : n.Fresh) (htype : n.ports.type.isMomentary = true) :
    ∃ key, n.Pulses key [] none := by
  obtain ⟨p, hp⟩ := h.exists_params
  -- a node as built remembers the levels of inputs without values
  cases hty : n.ports.type with
  | edge | edgeRising | edgeFalling | edgeBoth =>
    rw [hty] at hp
    obtain ⟨e, he, hn⟩ := exists_of_map_eq_ok hp
    refine ⟨.reset, ?_, ?_, nofun⟩
    · rw [← hn]
      rfl
    · rw [Saw, ← hn]
      exact EdgeDetector.level_of_ofParams he
  | pulse =>
    rw [hty] at hp
    obtain ⟨b, hb, hn⟩ := exists_of_map_eq_ok hp
    refine ⟨.main, ?_, ?_, nofun⟩
    · rw [← hn]
      rfl
    · rw [Saw, ← hn]
      exact Pulse.level_of_ofParams hb
  | staircase =>
    rw [hty] at hp
    obtain ⟨s, hs, hn⟩ := exists_of_map_eq_ok hp
    refine ⟨.main, ?_, ?_, nofun⟩
    · rw [← hn]
      rfl
    · rw [Saw, ← hn]
      exact Staircase.levels_of_ofParams hs
  | _ =>
    rw [hty] at htype
    cases htype

/-- A node with the behaviour of a staircase light has two input ports. -/
theorem Lives.one_lt_of_staircase (h : n₀.Lives eps n) (hfresh : n₀.Fresh) {s : Staircase}
    (hs : n.behavior = .staircase s) : 1 < n₀.ports.inputs.length := by
  have hparameters : n₀.behavior.parameters = Behavior.parameters (.staircase s) :=
    h.parameters_eq.symm.trans (congrArg Behavior.parameters hs)
  obtain ⟨s₀, hs₀⟩ := Behavior.exists_staircase hparameters
  obtain ⟨p, hp⟩ := hfresh.exists_params
  rw [hs₀] at hp
  rw [hfresh.fits.inputs, Behavior.staircase_of_ofParams hp]
  decide

/-! ### Lives -/

/-- A node that gives pulses shows true exactly while its timer is armed, which is due when the
pulse ends. -/
theorem Lives.momentary (h : n₀.Lives eps n) (hfresh : n₀.Fresh) (henabled : n₀.enabled = true)
    (htype : n₀.ports.type.isMomentary = true) (hpunctual : Punctual start eps) :
    ∃ key due?, n.Pulses key eps due? ∧ n.Stands key due?.isSome due? ∧
      (eps ≠ [] → n.Displays key due?.isSome due?) := by
  obtain ⟨key, hnew⟩ := hfresh.pulses htype
  have hport : 0 < n₀.ports.inputs.length := by
    rw [hfresh.fits.inputs]
    cases hty : n₀.ports.type with
    | edge | edgeRising | edgeFalling | edgeBoth | pulse | staircase => decide
    | _ =>
      rw [hty] at htype
      cases htype
  have hattended : ∃ out due?, (out = due?.isSome ∧ n.Pulses key eps due?) ∧
      n.Stands key out due? ∧ (eps ≠ [] → n.Displays key out due?) := by
    refine h.attend key (P := fun eps n out due? => out = due?.isSome ∧ n.Pulses key eps due?)
      hfresh henabled hpunctual ?_ ⟨rfl, hnew⟩ ?_
    · rintro eps n out due? ⟨-, hpulses⟩
      exact Behavior.inputBridge?_of_endKey? hpulses.endKey?_eq
    · rintro eps n ep n' out due? hlives hundergoes ⟨rfl, hpulses⟩ hstands hmeets
      have hbefore : n.level 0 = levels (stores eps) 0 := hlives.levels_eq hfresh hport
      have hlevel : n'.level 0 = levels (stores (eps ++ [ep])) 0 :=
        (hlives.snoc hundergoes).levels_eq hfresh hport
      cases hmeets with
      -- the end of the pulse stores nothing, so the node has seen the same levels as before
      | fired hdue hstored hbehavior hports htimers hevaluates =>
        obtain ⟨hn', hdisplays⟩ := hevaluates.ends (hbehavior ▸ hpulses.endKey?_eq) htimers
        have hsame := hn'.trans hbehavior
        refine ⟨false, none, hdisplays, rfl, hsame ▸ hpulses.endKey?_eq, ?_, nofun⟩
        rw [levels_concat_of_stored? hstored, Saw, hsame]
        exact hpulses.saw
      -- what the inputs start depends on the node; a node without a pulse has no end key
      | inputs _ hbehavior houtputs htimers hevaluates =>
        have hm := hstands.congr houtputs htimers
        cases hb : n.behavior with
        | edge e =>
          obtain ⟨due?', hdisplays, hpulses'⟩ := hpulses.edge hb hbehavior hm hevaluates hlevel
          exact ⟨_, due?', hdisplays, rfl, hpulses'⟩
        | pulse p =>
          obtain ⟨due?', hdisplays, hpulses'⟩ := hpulses.pulse hb hfresh hlives hundergoes hbehavior
            htimers hm hevaluates hbefore hlevel
          exact ⟨_, due?', hdisplays, rfl, hpulses'⟩
        | staircase s =>
          have hoffLevel : n'.level 1 = levels (stores (eps ++ [ep])) 1 :=
            (hlives.snoc hundergoes).levels_eq hfresh (hlives.one_lt_of_staircase hfresh hb)
          obtain ⟨due?', hdisplays, hpulses'⟩ :=
            hpulses.staircase hb hbehavior hm hevaluates hlevel hoffLevel
          exact ⟨_, due?', hdisplays, rfl, hpulses'⟩
        | _ =>
          have hkey := hpulses.endKey?_eq
          rw [hb] at hkey
          cases hkey
  obtain ⟨out, due?, ⟨rfl, hpulses⟩, hstands, hdisplays⟩ := hattended
  exact ⟨key, due?, hpulses, hstands, hdisplays⟩

/-- When a timer fires, the pulse has lasted exactly its length. -/
theorem Lives.ended {before after : List Episode} {timer : ArmedTimer}
    (h : n₀.Lives (before ++ ep :: after) n) (hfresh : n₀.Fresh) (henabled : n₀.enabled = true)
    (htype : n₀.ports.type.isMomentary = true)
    (hpunctual : Punctual start (before ++ ep :: after)) (hfired : ep.occasion = .fired timer) :
    ∃ n₁ start duration, n₀.Lives before n₁ ∧ n₁.Lives (ep :: after) n ∧ n₁.Began before start ∧
      n₁.behavior.length? = some duration ∧ ep.time = start + duration := by
  obtain ⟨n₁, n₂, hbefore, hundergoes, hafter⟩ := h.split
  obtain ⟨key, due?, hpulses, hstands, -⟩ := hbefore.momentary hfresh henabled htype
    (hpunctual.sublist (List.sublist_append_left _ _))
  have hmem : ep ∈ before ++ ep :: after := List.mem_append_right _ List.mem_cons_self
  have hmeets := hundergoes.meets (hbefore.enabled_eq.trans henabled)
    (Behavior.inputBridge?_of_endKey? hpulses.endKey?_eq) hstands.sole (hpunctual.due ep hmem)
  cases hmeets with
  | inputs hoccasion => exact (hoccasion timer hfired).elim
  | fired hdue =>
    obtain ⟨start, duration, hbegan, hlength, hend⟩ := hpulses.began ep.time hdue
    have hrest : n₁.Lives (ep :: after) n := (Lives.single hundergoes).trans hafter
    exact ⟨n₁, start, duration, hbefore, hrest, hbegan, hlength, hend⟩

end Node

end SignalGraph
