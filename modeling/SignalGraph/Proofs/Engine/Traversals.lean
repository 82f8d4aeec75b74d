import SignalGraph.Graph.Build
import SignalGraph.Host.Memory
import SignalGraph.Proofs.Engine.Pass

/-!
# The loops of a pass

A pass is made by two loops: one gives the ports that wait their turns, and one inside it follows
the links of the port whose turn it is, as long as steps are left. `Loop.Moves` is what they do
next. It knows nothing of the frontier that `Stage.propagate` keeps, and has no fuel: the loops come
to an end on every graph because each move either takes up a step or takes away a port that waits
(`Loop.wellFounded_moves`). The pass comes to what they end in, and has followed the links that they
have followed (`Runner.pass_bounded`).
-/

namespace SignalGraph

/-! ### Following one link -/

/-- The links from an output port, in their order. -/
def Graph.linksFrom (g : Graph) (source : PortRef) : List Link :=
  g.links.filter fun l => l.source = source

/-- The links out of a source lead from it to its targets. -/
theorem Graph.linksFrom_eq (g : Graph) (source : PortRef) :
    g.linksFrom source = (g.targets source).map (Link.mk source) := by
  rw [linksFrom, targets, List.map_filterMap, ← List.filterMap_eq_filter]
  refine List.filterMap_congr fun l _ => ?_
  by_cases h : l.source = source
  · subst h
    simp [Option.guard]
  · simp [Option.guard, h]

theorem Graph.linksFrom_congr {g g' : Graph} (h : g'.links = g.links) :
    g'.linksFrom = g.linksFrom := by
  funext source
  rw [linksFrom, h, linksFrom]

/-- A link that has been followed. -/
structure Traversal (H : Type) where
  before : Stage H
  link : Link
  /-- The value that was passed on. -/
  value : Value
  /-- The stage on which the target was evaluated, if it was. -/
  evaluation : Option (Stage H)
  after : Stage H
  /-- The ports that have become due. -/
  changed : List PortRef

variable {H : Type}

namespace Stage

/-- The stage with a value stored at an input of node `n`. -/
def store (s : Stage H) (target : PortRef) (n : Node) (value : Value) : Stage H :=
  { s with graph := s.graph.replace target.node (n.receive target.port value) }

variable [Host H]

/-- What following a link comes to. -/
inductive Follows (ctx : LoadContext) (s : Stage H) (link : Link) (value : Value) :
    Traversal H → Prop
  | missing (hn : s.graph.nodes[link.target.node]? = none) :
    Follows ctx s link value ⟨s, link, value, none, s, []⟩
  /-- The input has the value already. -/
  | unchanged {n : Node} (hn : s.graph.nodes[link.target.node]? = some n)
    (hsame : (n.ports.inputAt link.target.port).same value = true) :
    Follows ctx s link value ⟨s, link, value, none, s, []⟩
  /-- A disabled node stores the value, and that is all. -/
  | stored {n : Node} (hn : s.graph.nodes[link.target.node]? = some n)
    (hdiffers : (n.ports.inputAt link.target.port).same value = false)
    (hdisabled : n.enabled = false) :
    Follows ctx s link value ⟨s, link, value, none, s.store link.target n value, []⟩
  /-- An enabled node stores the value and is evaluated on it. -/
  | evaluated {n : Node} (hn : s.graph.nodes[link.target.node]? = some n)
    (hdiffers : (n.ports.inputAt link.target.port).same value = false)
    (henabled : n.enabled = true) {o : Stage H × List PortRef}
    (ho : (s.store link.target n value).evaluate ctx link.target.node .inputs = o) :
    Follows ctx s link value ⟨s, link, value, some (s.store link.target n value), o.1, o.2⟩

variable {ctx : LoadContext} {s : Stage H} {link : Link} {value : Value}

/-- A link is followed by a delivery. -/
theorem exists_follows (ctx : LoadContext) (s : Stage H) (link : Link) (value : Value) :
    ∃ t, s.Follows ctx link value t ∧ (t.after, t.changed) = s.deliver ctx value link.target := by
  cases hn : s.graph.nodes[link.target.node]? with
  | none => exact ⟨_, .missing hn, by rw [deliver, hn]⟩
  | some n =>
    have hdeliver := @deliver_eq _ _ ctx s value link.target n hn
    cases hsame : (n.ports.inputAt link.target.port).same value with
    | true =>
      rw [hsame] at hdeliver
      exact ⟨_, .unchanged hn hsame, hdeliver.symm⟩
    | false =>
      cases henabled : n.enabled with
      | false =>
        rw [hsame, henabled] at hdeliver
        exact ⟨_, .stored hn hsame henabled, hdeliver.symm⟩
      | true =>
        rw [hsame, henabled] at hdeliver
        exact ⟨_, .evaluated hn hsame henabled rfl, hdeliver.symm⟩

namespace Follows

variable {t t' : Traversal H}

/-- There is one way of following a link. -/
theorem unique (h : s.Follows ctx link value t) (h' : s.Follows ctx link value t') : t = t' := by
  -- one target has one input value and is enabled or not, so the cases exclude one another
  cases h <;> cases h' <;> grind

/-- What a traversal leaves behind is what the delivery leaves behind. -/
theorem deliver_eq (h : s.Follows ctx link value t) :
    s.deliver ctx value link.target = (t.after, t.changed) := by
  obtain ⟨t', h', heq⟩ := exists_follows ctx s link value
  rw [h.unique h', heq]

theorem outcome (h : s.Follows ctx link value t) :
    s.DeliverOutcome ctx value link.target (t.after, t.changed) :=
  h.deliver_eq ▸ deliver_outcome ctx s value link.target

theorem before_eq (h : s.Follows ctx link value t) : t.before = s := by
  cases h <;> rfl

theorem link_eq (h : s.Follows ctx link value t) : t.link = link := by
  cases h <;> rfl

theorem value_eq (h : s.Follows ctx link value t) : t.value = value := by
  cases h <;> rfl

/-- The target is evaluated if and only if it is enabled and its input has changed. -/
theorem isSome_evaluation_iff (h : s.Follows ctx link value t) :
    t.evaluation.isSome = true ↔ ∃ n, s.graph.nodes[link.target.node]? = some n ∧
      n.enabled = true ∧ (n.ports.inputAt link.target.port).same value = false := by
  cases h with
  | missing hn => simp [hn]
  | unchanged hn hsame => simp [hn, hsame]
  | stored hn _ hdisabled => simp [hn, hdisabled]
  | evaluated hn hdiffers henabled => simp [hn, hdiffers, henabled]

/-- If an input of an enabled node changes, the node is evaluated on it. -/
theorem exists_evaluation {p : PortRef} {n : Node} (h : s.Follows ctx link value t)
    (hn : s.graph.nodes[p.node]? = some n) (henabled : n.enabled = true)
    (hchanged : t.after.graph.inputAt p ≠ s.graph.inputAt p) :
    t.link.target = p ∧
      ∃ e, t.evaluation = some e ∧ e.graph.inputAt p = t.after.graph.inputAt p := by
  obtain rfl : p = link.target := by
    by_contra hne
    exact hchanged (h.outcome.inputAt_ne hne)
  refine ⟨by rw [h.link_eq], ?_⟩
  cases h with
  | missing | unchanged => exact absurd rfl hchanged
  | stored hn' _ hdisabled =>
    cases hn'.symm.trans hn
    cases hdisabled.symm.trans henabled
  | evaluated _ _ _ ho =>
    subst ho
    refine ⟨_, rfl, ?_⟩
    exact ((evaluate_outcome ctx _ link.target.node .inputs).inputAt_eq link.target).symm

end Follows

end Stage

/-! ### The loops -/

/-- Where a pass is. -/
structure Loop (H : Type) where
  stage : Stage H
  /-- The ports that wait for their turn, the next one first. -/
  waiting : List PortRef
  /-- The port whose turn it is. -/
  source : PortRef
  /-- Its value when its turn came. -/
  value : Value
  /-- Its targets to which no link has been followed yet. -/
  targets : List PortRef
  /-- How many links have been followed. -/
  steps : Nat

namespace Loop

variable [Host H] {ctx : LoadContext} {l l' l'' : Loop H} {t t' : Option (Traversal H)}
  {log log' : List (Traversal H)}

/-- What happens next in a pass, with the link that is followed. -/
inductive Moves (ctx : LoadContext) : Loop H → Option (Traversal H) → Loop H → Prop
  /-- The turn of the next port comes. -/
  | turn {s : Stage H} {next last : PortRef} {waiting : List PortRef} {value : Value}
    {steps : Nat} :
    Moves ctx ⟨s, next :: waiting, last, value, [], steps⟩ none
      ⟨s, waiting, next, s.graph.outputAt next, s.graph.targets next, steps⟩
  /-- A link is followed, and the outputs that it changes wait behind the other ports. -/
  | follow {s : Stage H} {source target : PortRef} {waiting targets : List PortRef} {value : Value}
    {steps : Nat} {t : Traversal H} (hsteps : steps < ctx.settings.maxSteps)
    (h : s.Follows ctx ⟨source, target⟩ value t) :
    Moves ctx ⟨s, waiting, source, value, target :: targets, steps⟩ (some t)
      ⟨t.after, waiting ++ t.changed, source, value, targets, steps + 1⟩

/-- What has happened in a pass, with the links that have been followed. -/
inductive Runs (ctx : LoadContext) : Loop H → List (Traversal H) → Loop H → Prop
  | refl (l : Loop H) : Runs ctx l [] l
  | move {l l' l'' : Loop H} {t : Option (Traversal H)} {log : List (Traversal H)}
    (h : l.Moves ctx t l') (hrest : Runs ctx l' log l'') : Runs ctx l (t.toList ++ log) l''

/-- A pass is about to start from changed ports. -/
def start (s : Stage H) (changed : List PortRef) : Loop H :=
  { stage := s, waiting := changed, source := default, value := .null, targets := [], steps := 0 }

/-- Nothing happens any more. -/
def Over (ctx : LoadContext) (l : Loop H) : Prop :=
  ∀ t l', ¬ l.Moves ctx t l'

/-- The links that are still to be followed, as far as they are known. -/
def due (l : Loop H) : List Link :=
  l.targets.map (Link.mk l.source) ++ l.waiting.flatMap l.stage.graph.linksFrom

/-! ### The end -/

/-- The loops come to an end, wherever they are. -/
theorem wellFounded_moves (ctx : LoadContext) :
    WellFounded fun l' l : Loop H => ∃ t, l.Moves ctx t l' := by
  have hwf := InvImage.wf (fun l : Loop H => (ctx.settings.maxSteps - l.steps, l.waiting.length))
    (WellFounded.prod_lex (wellFounded_lt (α := Nat)) (wellFounded_lt (α := Nat)))
  refine Subrelation.wf ?_ hwf
  rintro l' l ⟨t, h⟩
  cases h with
  | turn => exact .right _ (Nat.lt_succ_self _)
  | follow hsteps => exact .left _ _ (by dsimp only; omega)

/-- The loops are over when nothing is due or the bound is reached with links still due. -/
theorem over_iff :
    l.Over ctx ↔ (l.targets = [] → l.waiting = []) ∧
      (l.targets ≠ [] → ctx.settings.maxSteps ≤ l.steps) := by
  obtain ⟨s, waiting, source, value, targets, steps⟩ := l
  constructor
  · intro h
    refine ⟨fun htargets => ?_, fun htargets => ?_⟩
    · dsimp only at htargets
      subst htargets
      cases waiting with
      | nil => rfl
      | cons next waiting => exact absurd .turn (h _ _)
    · obtain ⟨target, targets, rfl⟩ := List.exists_cons_of_ne_nil htargets
      by_contra hsteps
      obtain ⟨t, ht, -⟩ := Stage.exists_follows ctx s ⟨source, target⟩ value
      exact h _ _ (.follow (Nat.lt_of_not_le hsteps) ht)
  · rintro ⟨hsettled, hcut⟩ t l' h
    cases h with
    | turn => cases hsettled rfl
    | follow hsteps => exact absurd (hcut (List.cons_ne_nil _ _)) (Nat.not_le.2 hsteps)

/-- Links are due at the end if and only if the loop over the links of one port was left. -/
theorem Over.due_eq_nil_iff (h : l.Over ctx) : l.due = [] ↔ l.targets = [] := by
  rw [due, List.append_eq_nil_iff, List.map_eq_nil_iff]
  refine ⟨And.left, fun htargets => ⟨htargets, ?_⟩⟩
  rw [(over_iff.1 h).1 htargets, List.flatMap_nil]

/-! ### One way to go -/

/-- A move is determined by where the loops stand. -/
theorem Moves.unique (h : l.Moves ctx t l') (h' : l.Moves ctx t' l'') : t = t' ∧ l' = l'' := by
  cases h with
  | turn =>
    cases h'
    exact ⟨rfl, rfl⟩
  | follow _ hfollows =>
    cases h' with
    | follow _ hfollows' =>
      obtain rfl := hfollows.unique hfollows'
      exact ⟨rfl, rfl⟩

/-- All runs to the end are one. -/
theorem Runs.unique (h : l.Runs ctx log l') (hover : l'.Over ctx) (h' : l.Runs ctx log' l'')
    (hover' : l''.Over ctx) : log = log' ∧ l' = l'' := by
  induction h generalizing log' with
  | refl l =>
    cases h' with
    | refl => exact ⟨rfl, rfl⟩
    | move hmove => exact absurd hmove (hover _ _)
  | move hmove _ ih =>
    cases h' with
    | refl => exact absurd hmove (hover' _ _)
    | move hmove' hrest' =>
      obtain ⟨rfl, rfl⟩ := hmove.unique hmove'
      obtain ⟨rfl, rfl⟩ := ih hover hrest'
      exact ⟨rfl, rfl⟩

/-! ### What every move keeps -/

/-- No move changes the links of the graph. -/
theorem Moves.links_eq (h : l.Moves ctx t l') : l'.stage.graph.links = l.stage.graph.links := by
  cases h with
  | turn => rfl
  | follow _ hfollows => exact hfollows.outcome.along.links_eq

/-- The links that are due, and those of the ports that become due, are followed or are due
later. -/
theorem Moves.due_eq (h : l.Moves ctx t l') :
    l.due ++ (t.toList.flatMap Traversal.changed).flatMap l.stage.graph.linksFrom =
      t.toList.map Traversal.link ++ l'.due := by
  rw [due, due, Graph.linksFrom_congr h.links_eq]
  cases h with
  | turn => simp [Graph.linksFrom_eq]
  | follow _ hfollows => simp [hfollows.link_eq]

/-- A move that traverses a link counts one step, any other none, and none passes the bound. -/
theorem Moves.steps_eq (h : l.Moves ctx t l') :
    l'.steps = l.steps + t.toList.length ∧
      (l.steps ≤ ctx.settings.maxSteps → l'.steps ≤ ctx.settings.maxSteps) := by
  cases h with
  | turn => exact ⟨rfl, id⟩
  | follow hsteps => exact ⟨rfl, fun _ => hsteps⟩

namespace Runs

theorem trans (h : l.Runs ctx log l') (h' : l'.Runs ctx log' l'') :
    l.Runs ctx (log ++ log') l'' := by
  induction h with
  | refl => exact h'
  | move hmove _ ih =>
    rw [List.append_assoc]
    exact .move hmove (ih h')

/-- Nothing is lost: the links due at the start and those a traversal adds are the ones traversed,
followed by the ones still due. -/
theorem due_eq (h : l.Runs ctx log l') :
    l.due ++ (log.flatMap Traversal.changed).flatMap l.stage.graph.linksFrom =
      log.map Traversal.link ++ l'.due := by
  induction h with
  | refl => simp
  | move hmove _ ih =>
    rw [Graph.linksFrom_congr hmove.links_eq] at ih
    rw [List.flatMap_append, List.flatMap_append, ← List.append_assoc, hmove.due_eq,
      List.append_assoc, ih, List.map_append, List.append_assoc]

/-- The steps count the traversals and never pass the bound. -/
theorem steps_eq (h : l.Runs ctx log l') :
    l'.steps = l.steps + log.length ∧
      (l.steps ≤ ctx.settings.maxSteps → l'.steps ≤ ctx.settings.maxSteps) := by
  induction h with
  | refl => exact ⟨rfl, id⟩
  | move hmove _ ih =>
    obtain ⟨hsteps, hle⟩ := hmove.steps_eq
    refine ⟨?_, fun h => ih.2 (hle h)⟩
    rw [ih.1, hsteps, List.length_append, Nat.add_assoc]

/-- Every traversal of a run does what the delivery along its link does. -/
theorem follows (h : l.Runs ctx log l') : ∀ t ∈ log, t.before.Follows ctx t.link t.value t := by
  induction h with
  | refl => exact fun _ ht => nomatch ht
  | move hmove _ ih =>
    intro t ht
    rcases List.mem_append.1 ht with ht | ht
    · cases hmove with
      | turn => cases ht
      | follow _ hfollows =>
        obtain rfl := List.mem_singleton.1 ht
        rwa [hfollows.before_eq, hfollows.link_eq, hfollows.value_eq]
    · exact ih t ht

/-- If an input of an enabled node is not what it was, the node has been evaluated on it. -/
theorem exists_evaluation {p : PortRef} {n : Node} (h : l.Runs ctx log l')
    (hn : l.stage.graph.nodes[p.node]? = some n) (henabled : n.enabled = true)
    (hchanged : l'.stage.graph.inputAt p ≠ l.stage.graph.inputAt p) :
    ∃ t ∈ log, t.link.target = p ∧
      ∃ e, t.evaluation = some e ∧ e.graph.inputAt p = l'.stage.graph.inputAt p := by
  induction h generalizing n with
  | refl => exact absurd rfl hchanged
  | @move l l₁ l' t log hmove _ ih =>
    cases hmove with
    | turn => exact ih hn henabled hchanged
    | @follow s _ _ _ _ _ _ t _ hfollows =>
      obtain ⟨n₁, hn₁, -⟩ := hfollows.outcome.along.exists_node hn
      have hplan := hfollows.outcome.along.step.plan_eq hn hn₁
      -- the input is what this link has made of it, or changes later
      by_cases hlast : l'.stage.graph.inputAt p = t.after.graph.inputAt p
      · rw [hlast] at hchanged ⊢
        exact ⟨t, List.mem_cons_self, hfollows.exists_evaluation hn henabled hchanged⟩
      · obtain ⟨t', ht', hrest⟩ := ih hn₁ ((congrArg Node.Plan.enabled hplan).trans henabled) hlast
        exact ⟨t', List.mem_cons_of_mem _ ht', hrest⟩

end Runs

/-! ### The frontier -/

/-- The loop has come as far as the frontier. -/
structure Shows (l : Loop H) (f : Frontier) (s : Stage H) : Prop where
  stage_eq : l.stage = s
  waiting_eq : l.waiting = f.waiting
  targets_eq : l.targets = f.targets
  value_eq : l.value = f.value

/-- Ports without targets have their turns, and no link is followed. -/
theorem exists_runs_skipped (ctx : LoadContext) {s : Stage H} {skipped : List PortRef}
    (hskipped : ∀ q ∈ skipped, s.graph.targets q = []) (waiting : List PortRef) (source : PortRef)
    (value : Value) (steps : Nat) :
    ∃ source' value', Runs ctx ⟨s, skipped ++ waiting, source, value, [], steps⟩ []
      ⟨s, waiting, source', value', [], steps⟩ := by
  induction skipped generalizing source value with
  | nil => exact ⟨source, value, .refl _⟩
  | cons q rest ih =>
    obtain ⟨source', value', hruns⟩ :=
      ih (fun q' hq' => hskipped q' (List.mem_cons_of_mem _ hq')) q (s.graph.outputAt q)
    have hturn := @Moves.turn H _ ctx s q source (rest ++ waiting) value steps
    rw [hskipped q List.mem_cons_self] at hturn
    exact ⟨source', value', .move hturn hruns⟩

/-- The loops get to the link that is due next. -/
theorem Shows.exists_runs_due (ctx : LoadContext) {f f' : Frontier} {s : Stage H} {value : Value}
    {target : PortRef} (h : l.Shows f s) (hdue : f.Due s.graph value target f') :
    f'.value = value ∧
      ∃ source, l.Runs ctx [] ⟨s, f'.waiting, source, value, target :: f'.targets, l.steps⟩ := by
  obtain ⟨s', waiting, source, value', targets, steps⟩ := l
  obtain ⟨rfl, hwaiting, htargets, hvalue⟩ := h
  dsimp only at hwaiting htargets hvalue
  subst hwaiting htargets hvalue
  cases hdue with
  | going htargets =>
    rw [htargets]
    exact ⟨rfl, source, .refl _⟩
  | @turn next _ skipped f' hnone hwaiting hskipped htargets hvalue =>
    obtain ⟨last, value', hruns⟩ :=
      exists_runs_skipped ctx hskipped (next :: f'.waiting) source f.value steps
    have hturn : Moves ctx ⟨s', next :: f'.waiting, last, value', [], steps⟩ none
        ⟨s', f'.waiting, next, f'.value, target :: f'.targets, steps⟩ := by
      rw [hvalue, ← htargets]
      exact .turn
    rw [hnone, hwaiting]
    exact ⟨rfl, next, hruns.trans (.move hturn (.refl _))⟩

/-- If no link is due, the loops get to their end without following one. -/
theorem Shows.exists_runs_settled {f : Frontier} {s : Stage H} (h : l.Shows f s)
    (hnone : f.next? s.graph = none) :
    ∃ l', l.Runs ctx [] l' ∧ l'.Over ctx ∧ l'.stage = s ∧ l'.due = [] := by
  obtain ⟨s', waiting, source, value, targets, steps⟩ := l
  obtain ⟨rfl, hwaiting, htargets, -⟩ := h
  dsimp only at hwaiting htargets hnone
  obtain ⟨hempty, hskipped⟩ := Frontier.targets_of_next?_eq_none hnone
  rw [hempty] at htargets
  subst hwaiting htargets
  obtain ⟨last, value', hruns⟩ := exists_runs_skipped ctx hskipped [] source value steps
  rw [List.append_nil] at hruns
  exact ⟨_, hruns, over_iff.2 ⟨fun _ => rfl, fun hne => absurd rfl hne⟩, rfl, rfl⟩

/-- The loops come to the end to which links are followed from the frontier. -/
theorem exists_runs_propagate {steps : Nat} {f : Frontier} {s : Stage H} (h : l.Shows f s)
    (hsteps : l.steps + steps = ctx.settings.maxSteps) :
    ∃ log l', l.Runs ctx log l' ∧ l'.Over ctx ∧ l'.stage = (s.propagate ctx steps f).stage ∧
      log.length + (s.propagate ctx steps f).remaining = steps ∧
      ((s.propagate ctx steps f).truncated = true ↔ l'.due ≠ []) := by
  induction steps generalizing f s l with
  | zero =>
    unfold Stage.propagate
    split
    · next hnone =>
      obtain ⟨l', hruns, hover, hstage, hdue⟩ := h.exists_runs_settled hnone
      exact ⟨[], l', hruns, hover, hstage, rfl, by simp [hdue]⟩
    · next value target f' hsome =>
      obtain ⟨-, source, hruns⟩ := h.exists_runs_due ctx (Frontier.due_of_next? hsome)
      refine ⟨[], _, hruns, over_iff.2 ⟨nofun, fun _ => ?_⟩, rfl, rfl, by simp [due]⟩
      exact hsteps.ge
  | succ steps ih =>
    unfold Stage.propagate
    split
    · next hnone =>
      obtain ⟨l', hruns, hover, hstage, hdue⟩ := h.exists_runs_settled hnone
      exact ⟨[], l', hruns, hover, hstage, Nat.zero_add _, by simp [hdue]⟩
    · next value target f' hsome =>
      obtain ⟨hvalue, source, hruns⟩ := h.exists_runs_due ctx (Frontier.due_of_next? hsome)
      obtain ⟨t, hfollows, hdeliver⟩ := Stage.exists_follows ctx s ⟨source, target⟩ value
      have hmove : Moves ctx ⟨s, f'.waiting, source, value, target :: f'.targets, l.steps⟩ (some t)
          ⟨t.after, f'.waiting ++ t.changed, source, value, f'.targets, l.steps + 1⟩ :=
        .follow (by omega) hfollows
      dsimp only at hdeliver ⊢
      rw [← hdeliver]
      dsimp only
      -- the outputs that the link has changed wait last on both sides
      obtain ⟨log, l', hrest, hover, hstage, hlength, hdue⟩ :=
        ih (l := ⟨t.after, f'.waiting ++ t.changed, source, value, f'.targets, l.steps + 1⟩)
          (f := f'.enqueue t.changed) (s := t.after)
          ⟨rfl, (f'.waiting_enqueue t.changed).symm, rfl, hvalue.symm⟩ (by dsimp only; omega)
      refine ⟨t :: log, l', hruns.trans (.move hmove hrest), hover, hstage, ?_, hdue⟩
      rw [List.length_cons]
      omega

end Loop

/-! ### Passes -/

namespace Runner

variable [Host H]

/-- What a pass that starts from changed ports does, if its loops end in `l` after the links in
`log` have been followed. -/
structure Bounded (ctx : LoadContext) (r : Runner) (s : Stage H) (changed : List PortRef)
    (log : List (Traversal H)) (l : Loop H) : Prop where
  stage_eq : (⟨(r.pass ctx s changed).1.graph, (r.pass ctx s changed).2⟩ : Stage H) = l.stage
  lastSteps_eq : (r.pass ctx s changed).1.lastSteps = log.length
  lastSteps_le : (r.pass ctx s changed).1.lastSteps ≤ ctx.settings.maxSteps
  evaluations_le : (log.filterMap Traversal.evaluation).length ≤
    (r.pass ctx s changed).1.lastSteps
  /-- The links of every port that has become due, in their order, up to those that are left. -/
  links_eq : (changed ++ log.flatMap Traversal.changed).flatMap s.graph.linksFrom =
    log.map Traversal.link ++ l.due
  /-- Links are left if and only if the pass counts as cut short. -/
  cut : l.due ≠ [] → (r.pass ctx s changed).1.truncatedPasses = r.truncatedPasses + 1 ∧
    (r.pass ctx s changed).1.lastSteps = ctx.settings.maxSteps
  settled : l.due = [] → (r.pass ctx s changed).1.truncatedPasses = r.truncatedPasses
  follows : ∀ t ∈ log, t.before.Follows ctx t.link t.value t
  /-- An enabled node is evaluated if and only if an input has changed. -/
  evaluates_iff : ∀ t ∈ log, t.evaluation.isSome = true ↔
    ∃ n, t.before.graph.nodes[t.link.target.node]? = some n ∧ n.enabled = true ∧
      (n.ports.inputAt t.link.target.port).same t.value = false
  /-- An enabled node has been evaluated on every input that is not what it was. -/
  evaluated : ∀ (p : PortRef) n, s.graph.nodes[p.node]? = some n → n.enabled = true →
    (r.pass ctx s changed).1.graph.inputAt p ≠ s.graph.inputAt p →
    ∃ t ∈ log, t.link.target = p ∧ ∃ e, t.evaluation = some e ∧
      e.graph.inputAt p = (r.pass ctx s changed).1.graph.inputAt p

/-- The loops of a pass come to an end from everywhere. Those that start from changed ports can come
to one end only, and the pass does what they do. -/
theorem pass_bounded (ctx : LoadContext) (r : Runner) (s : Stage H) (changed : List PortRef) :
    (WellFounded fun l' l : Loop H => ∃ t, l.Moves ctx t l') ∧
    (∃ log l, (Loop.start s changed).Runs ctx log l ∧ l.Over ctx) ∧
    ∀ log l, (Loop.start s changed).Runs ctx log l → l.Over ctx →
      r.Bounded ctx s changed log l := by
  have hshows : (Loop.start s changed).Shows (.ofSources changed) s :=
    ⟨rfl, (List.append_nil changed).symm, rfl, rfl⟩
  obtain ⟨log₀, l₀, hruns₀, hover₀, hstage, hlength, htruncated⟩ :=
    Loop.exists_runs_propagate hshows (Nat.zero_add ctx.settings.maxSteps)
  refine ⟨Loop.wellFounded_moves ctx, ⟨log₀, l₀, hruns₀, hover₀⟩, fun log l hruns hover => ?_⟩
  -- the loops are determined, so it is enough to speak about the run that the pass performs
  obtain ⟨rfl, rfl⟩ := hruns₀.unique hover₀ hruns hover
  have hgraph : (r.pass ctx s changed).1.graph = l₀.stage.graph := by rw [hstage]; rfl
  have hsteps : (r.pass ctx s changed).1.lastSteps = log₀.length := by
    dsimp only [pass]
    omega
  have hle : (r.pass ctx s changed).1.lastSteps ≤ ctx.settings.maxSteps := by omega
  constructor
  case stage_eq => rw [hstage]; rfl
  case lastSteps_eq => exact hsteps
  case lastSteps_le => exact hle
  case evaluations_le => exact hsteps ▸ List.length_filterMap_le _ _
  case links_eq =>
    rw [List.flatMap_append]
    exact hruns₀.due_eq
  case cut =>
    intro hdue
    -- the loops ended with links due, which is only possible at the bound
    have hcut := (Loop.over_iff.1 hover₀).2 (mt hover₀.due_eq_nil_iff.2 hdue)
    have hstart : (Loop.start s changed).steps = 0 := rfl
    rw [hruns₀.steps_eq.1, hstart, Nat.zero_add, ← hsteps] at hcut
    refine ⟨?_, le_antisymm hle hcut⟩
    dsimp only [pass]
    rw [htruncated.2 hdue]
    rfl
  case settled =>
    intro hdue
    dsimp only [pass]
    rw [if_neg fun h => htruncated.1 h hdue]
  case follows => exact hruns₀.follows
  case evaluates_iff => exact fun t ht => (hruns₀.follows t ht).isSome_evaluation_iff
  case evaluated =>
    intro p n hn henabled hchanged
    rw [hgraph] at hchanged ⊢
    exact hruns₀.exists_evaluation hn henabled hchanged

/-- An inverter that feeds itself never settles. -/
example :
    let g := (Graph.build {
      id := "g"
      nodes := [{ id := "a", typeName := "not" }]
      links := [⟨⟨"a", "out"⟩, ⟨"a", "in"⟩⟩] }).1
    let w : World MemoryHost := { host := default, clock := { start := default } }
    let r := (primeNode ⟨1, { maxSteps := 3 }, []⟩ ({ graph := g }, w) 0).1
    r.lastSteps = 3 ∧ r.truncatedPasses = 1 := by
  decide +kernel

end Runner

end SignalGraph
