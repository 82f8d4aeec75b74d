import SignalGraph.Proofs.Engine.Moments
import SignalGraph.Proofs.Engine.Period

/-!
# Accounts

The account of a node lists its occurrences since a load; without the stages it is the record of the
node (`Engine.Period.map_account`). A node of a running graph has become what it is moment by moment
by what its account says (`Engine.Period.exists_reached`). Between two requests, no timer is due
that was armed at an earlier time (`Engine.Period.reached`).
-/

namespace SignalGraph

namespace Engine

variable {H : Type}

/-- Without the stages, the occurrences at a node are its history. -/
theorem map_occurrences (ctx : LoadContext) (i j : Nat) (os : List (Nat × Occurrence H)) :
    (occurrences i j os).map (Occurrence.episode ctx) = history i j (os.map (entry ctx)) := by
  rw [occurrences, occurrencesOf, occurrencesIn, history, List.filter_filterMap, List.map_filterMap,
    List.filterMap_map]
  refine List.filterMap_congr fun x _ => ?_
  by_cases hi : x.1 = i
  · by_cases hj : x.2.node = j <;> simp [entry, hi, hj]
  · simp [entry, hi]

variable [Host H] {e e' : Engine H} {limit i j : Nat} {c : Configuration} {later : List (Request H)}
  {request : Request H} {r : Runner} {n : Node}

/-- What happens to a node while these requests are served, with the stages. -/
def account (limit : Nat) (e : Engine H) (requests : List (Request H)) (i j : Nat) :
    List (Occurrence H) :=
  occurrences i j (e.transcript (e.actionsAll limit requests))

/-! ### Requests in a row -/

theorem transcript_append (e : Engine H) (as bs : List (Action H)) :
    e.transcript (as ++ bs) = e.transcript as ++ (e.run as).transcript bs :=
  foldNotes_append _ _ _ _ _

theorem actionsAll_append (limit : Nat) (e : Engine H) (requests requests' : List (Request H)) :
    e.actionsAll limit (requests ++ requests') = e.actionsAll limit requests ++
      (e.run (e.actionsAll limit requests)).actionsAll limit requests' := by
  induction requests generalizing e with
  | nil => rfl
  | cons request rest ih =>
    rw [List.cons_append, actionsAll, actionsAll, ih, run_append, List.append_assoc]

/-- Another request is served after these. -/
theorem account_concat {requests : List (Request H)} (h : e.serveAll limit requests = some e') :
    e.account limit (requests ++ [request]) i j = e.account limit requests i j ++
      occurrences i j (e'.transcript (e'.actions limit request)) := by
  rw [account, actionsAll_append, run_actionsAll h, transcript_append, run_actionsAll h,
    occurrences_append, actionsAll, actionsAll, List.append_nil]
  rfl

/-- Only the request to let time pass moves the clock of the timers. -/
theorem elapsed_eq_of_serve (h : e.serve limit request = some e')
    (hrequest : ∀ millis, request ≠ .advance millis) :
    e'.world.timeline.elapsed = e.world.timeline.elapsed := by
  cases serve_outcome h with
  | @load c _ hsettle =>
    have hinstalled := (AtOnce.install e c).sameTimes.timeline
    exact (sameTimes_settle hsettle).timeline.elapsed_eq.trans hinstalled.elapsed_eq
  | stop =>
    have hteardown : e.teardown.world.SameTimes e.world :=
      Ledger.teardown (World.ledger_sameTimes e.world) (.refl _)
    exact hteardown.timeline.elapsed_eq
  | handled hsettle => exact (sameTimes_settle hsettle).timeline.elapsed_eq
  | ignored => rfl
  | advance => exact (hrequest _ rfl).elim
  | shiftLocal =>
    show ({ e.world with clock := _ } : World H).timeline.elapsed = _
    unfold World.timeline
    cases e.world.service <;> rfl
  | host => rfl

/-- What happens in a stretch of time happens at times between. -/
theorem Timed.time_mem {ctx : LoadContext} {entries : List Entry} {os : List (Nat × Occurrence H)}
    (h : e.Timed entries e') (hbegin : e.Working) (hend : e'.Working)
    (hos : os.map (entry ctx) = entries) : ∀ x ∈ os, e.now ≤ x.2.time ∧ x.2.time ≤ e'.now := by
  intro x hx
  rw [now, now, World.timeline_eq_clock hbegin.onTime.shared,
    World.timeline_eq_clock hend.onTime.shared]
  exact h.within (entry ctx x) (hos ▸ List.mem_map_of_mem hx)

namespace Period

/-- Before its last request, a period was one already. -/
theorem init (h : e.Period limit c (later ++ [request]) e') :
    ∃ e₁, e.Period limit c later e₁ ∧ e₁.serve limit request = some e' := by
  have hserved := h.served
  rw [← List.cons_append, serveAll_append] at hserved
  obtain ⟨e₁, hserved, hlast⟩ := Option.bind_eq_some_iff.1 hserved
  obtain ⟨e₂, hlast, heq⟩ := Option.bind_eq_some_iff.1 hlast
  cases heq
  exact ⟨e₁, ⟨h.origin, hserved, fun request hrequest =>
    h.last request (List.mem_append_left _ hrequest)⟩, hlast⟩

/-- In a period the engine gets from the new graphs to its end moment by moment. -/
theorem advances (h : e.Period limit c later e') :
    (e.assemble c).Advances (e.transcript (e.actionsAll limit (.load c :: later))) e' := by
  obtain ⟨as, hactions, has, rfl⟩ := h.exists_actions
  have horderly := h.orderly
  rw [hactions] at horderly ⊢
  cases horderly with
  | install _ horderly =>
    exact (h.working.advances_install c).trans ((h.working.install c).2.advances_run horderly has)

theorem scenes_eq (h : e.Period limit c later e') : e'.context.scenes = c.scenes := by
  rw [h.advances.context_eq]
  rfl

/-- Without the stages, the account is the record. -/
theorem map_account (h : e.Period limit c later e') (i j : Nat) :
    (e.account limit (.load c :: later) i j).map (Occurrence.episode e'.context) =
      e.record limit (.load c :: later) i j := by
  obtain ⟨as, hactions, has, -⟩ := h.exists_actions
  have hreads := (reads_since_load e c has).map_eq
  rw [← hactions, ← h.advances.context_eq] at hreads
  rw [account, map_occurrences, hreads]
  rfl

/-- Everything in an account happens in the period. -/
theorem time_mem (h : e.Period limit c later e') :
    ∀ o ∈ e.account limit (.load c :: later) i j, e.now ≤ o.time ∧ o.time ≤ e'.now := by
  obtain ⟨as, hactions, has, -⟩ := h.exists_actions
  have hreads := (reads_since_load e c has).map_eq
  rw [← hactions] at hreads
  intro o ho
  obtain ⟨x, hx, rfl⟩ := exists_of_mem_occurrences ho
  exact h.timed.time_mem h.working h.working_end hreads x hx

/-- A node of a running graph has become what it is moment by moment. -/
theorem advances_from (h : e.Period limit c later e') (hr : e'.runners[i]? = some r)
    (hn : r.graph.nodes[j]? = some n) {r₀ : Runner} {n₀ : Node}
    (hr₀ : (e.assemble c).runners[i]? = some r₀) (hn₀ : r₀.graph.nodes[j]? = some n₀) :
    n₀.Advances e'.context (e.account limit (.load c :: later) i j) n := by
  obtain ⟨r₁, n₁, hr₁, hn₁, hadvances⟩ := h.advances.exists_node hr hn
  obtain rfl : r₀ = r₁ := Option.some.inj (hr₀.symm.trans hr₁)
  obtain rfl : n₀ = n₁ := Option.some.inj (hn₀.symm.trans hn₁)
  rw [h.advances.context_eq]
  exact hadvances

section Last

variable {e₁ : Engine H} (h : e.Period limit c (later ++ [request]) e')
  (hinit : e.Period limit c later e₁) (hlast : e₁.serve limit request = some e')

include h hinit hlast

theorem orderly_last : e₁.Orderly (e₁.actions limit request) ∧
    ∀ a ∈ e₁.actions limit request, ∀ c, a ≠ .install c := by
  have hrest : AtRest e₁ := hinit.atRest.serveAll hinit.served
  have hrequest : ∀ c, request ≠ .load c :=
    h.last request (List.mem_append_right _ (List.mem_singleton_self request))
  exact ⟨orderly_actions hrest.queue_eq_nil hlast, not_install_of_mem_actions hlast hrequest⟩

/-- The last request is served moment by moment, too. -/
theorem advances_last : e₁.Advances (e₁.transcript (e₁.actions limit request)) e' := by
  obtain ⟨horderly, has⟩ := h.orderly_last hinit hlast
  have hadvances := hinit.working_end.advances_run horderly has
  rwa [run_actions hlast] at hadvances

/-- What happens while the last request is served happens in the time that it takes. -/
theorem time_mem_last : ∀ o ∈ occurrences i j (e₁.transcript (e₁.actions limit request)),
    e₁.now ≤ o.time ∧ o.time ≤ e'.now := by
  obtain ⟨horderly, has⟩ := h.orderly_last hinit hlast
  have htimed := hinit.working_end.timed horderly
  rw [run_actions hlast] at htimed
  intro o ho
  obtain ⟨x, hx, rfl⟩ := exists_of_mem_occurrences ho
  exact htimed.time_mem hinit.working_end h.working_end (Reads.run e₁ has).map_eq x hx

end Last

/-- Between two requests, no timer that a node armed at an earlier time is due. -/
theorem reached (h : e.Period limit c later e') (hr : e'.runners[i]? = some r)
    (hn : r.graph.nodes[j]? = some n) {r₀ : Runner} {n₀ : Node}
    (hr₀ : (e.assemble c).runners[i]? = some r₀) (hn₀ : r₀.graph.nodes[j]? = some n₀) :
    n₀.Reached e'.context e'.now (e'.now + 1) (e.account limit (.load c :: later) i j) := by
  induction later using List.reverseRecOn generalizing e' r n with
  | nil =>
    -- the load is a single moment, which new nodes begin without timers
    obtain ⟨e₁, hserved, heq⟩ := Option.bind_eq_some_iff.1 h.served
    cases heq
    have hnow : e'.now = e.now := elapsed_eq_of_serve hserved nofun
    have hupcoming : n₀.timers.Upcoming (e'.now + 1) := by
      rw [(fresh_of_assemble c hr₀ hn₀).timers]
      exact nofun
    rw [← List.nil_append (e.account _ _ i j)]
    refine .intro .nil hupcoming fun o ho => ?_
    have htime := h.time_mem o ho
    omega
  | append_singleton later request ih =>
    by_cases hadvance : ∃ millis, request = .advance millis
    · -- nothing is due any more when time has passed
      obtain ⟨millis, rfl⟩ := hadvance
      have hupcoming : e'.Upcoming (e'.now + 1) :=
        h.working_end.upcoming_of_pending (h.now_lt_of_advance rfl)
      have hbecomes := (h.advances_from hr hn hr₀ hn₀).becomes
      rw [← List.append_nil (e.account _ _ i j)]
      exact .intro hbecomes (hupcoming hr hn) nofun
    · -- otherwise the moment goes on
      obtain ⟨e₁, hinit, hlast⟩ := h.init
      obtain ⟨r₁, n₁, hr₁, hn₁, -⟩ := (h.advances_last hinit hlast).exists_node hr hn
      have hnow : e'.now = e₁.now :=
        elapsed_eq_of_serve hlast fun millis hrequest => hadvance ⟨millis, hrequest⟩
      have hcontext := (h.advances_last hinit hlast).context_eq
      have hpast := ih hinit hr₁ hn₁
      rw [← List.cons_append, account_concat hinit.served, hnow, hcontext]
      refine hpast.append fun o ho => ?_
      have htime := h.time_mem_last hinit hlast o ho
      omega

/-- A node of a running graph was new once, has become what it is moment by moment, and has no timer
from earlier times that is due. -/
theorem exists_reached (h : e.Period limit c later e') (hr : e'.runners[i]? = some r)
    (hn : r.graph.nodes[j]? = some n) : ∃ n₀ : Node, n₀.Fresh ∧
      n₀.Advances e'.context (e.account limit (.load c :: later) i j) n ∧
      n₀.Reached e'.context e'.now (e'.now + 1) (e.account limit (.load c :: later) i j) := by
  obtain ⟨r₀, n₀, hr₀, hn₀, -⟩ := h.advances.exists_node hr hn
  exact ⟨n₀, fresh_of_assemble c hr₀ hn₀, h.advances_from hr hn hr₀ hn₀,
    h.reached hr hn hr₀ hn₀⟩

end Period

end Engine

end SignalGraph
