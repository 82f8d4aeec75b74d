import SignalGraph.Proofs.Timer.Excerpt
import SignalGraph.Proofs.Timer.Passage
import SignalGraph.Timer.Script

/-!
# Timers that fire

The callbacks of timers may schedule and cancel any timers, also at once. `Owner.Performs` records
what happens while time passes: the timers that fire, the timeline that each callback starts on and
what it does to the timers. `Owner.Course` are the states that a system comes to from one where no
timer waits, when timers are scheduled and cancelled from outside and time passes, with everything
that has fired.

The invariant is `Timeline.Chronological`: what has fired and what waits stand in one strictly
increasing order, and the clock is between them. So the timers fire in order, once and at their
times, and a timer that waits when it is due fires unless an earlier callback cancels it
(`Owner.Course.fires_exactly`).
-/

namespace SignalGraph

namespace Timeline

variable {α : Type} {t t' : Timeline α} {fired : List Ticket} {target : Nat} {a : α}

/-! ### Editing the timers while the clock stands still -/

/-- What may be done to the timers of a timeline. -/
inductive Edit (α : Type) where
  | schedule (delay : Nat) (a : α)
  | cancel (ticket : Ticket)

def edit (t : Timeline α) : Edit α → Timeline α
  | .schedule delay a => (t.schedule delay a).1
  | .cancel ticket => t.cancel ticket

def editAll (t : Timeline α) (edits : List (Edit α)) : Timeline α :=
  edits.foldl edit t

theorem elapsed_edit (t : Timeline α) (e : Edit α) : (t.edit e).elapsed = t.elapsed := by
  cases e <;> rfl

theorem nextNumber_le_edit (t : Timeline α) (e : Edit α) :
    t.nextNumber ≤ (t.edit e).nextNumber := by
  cases e with
  | schedule delay a => exact Nat.le_succ _
  | cancel ticket => exact Nat.le_refl _

theorem elapsed_editAll (t : Timeline α) (edits : List (Edit α)) :
    (t.editAll edits).elapsed = t.elapsed := by
  induction edits generalizing t with
  | nil => rfl
  | cons e rest ih => exact (ih (t.edit e)).trans (t.elapsed_edit e)

theorem nextNumber_le_editAll (t : Timeline α) (edits : List (Edit α)) :
    t.nextNumber ≤ (t.editAll edits).nextNumber := by
  induction edits generalizing t with
  | nil => exact Nat.le_refl _
  | cons e rest ih => exact Nat.le_trans (t.nextNumber_le_edit e) (ih (t.edit e))

/-- A number that has been given out does not come back, so such a timer waits as long as it is not
cancelled. -/
theorem mem_pending_edit_iff {entry : Ticket × α} (hnumber : entry.1.number < t.nextNumber)
    (e : Edit α) : entry ∈ (t.edit e).pending ↔ entry ∈ t.pending ∧ .cancel entry.1 ≠ e := by
  cases e with
  | schedule delay a =>
    have hnew : entry ≠ ((t.schedule delay a).2, a) := by
      rintro rfl
      exact Nat.lt_irrefl _ hnumber
    simp [edit, (t.schedule_perm delay a).mem_iff, hnew]
  | cancel ticket => simp [edit, cancel, List.mem_filter]

/-- A timer that waits goes on waiting through edits unless one of them cancels it. -/
theorem mem_pending_editAll_iff {entry : Ticket × α} (hnumber : entry.1.number < t.nextNumber)
    (edits : List (Edit α)) :
    entry ∈ (t.editAll edits).pending ↔ entry ∈ t.pending ∧ .cancel entry.1 ∉ edits := by
  induction edits generalizing t with
  | nil => simp [editAll]
  | cons e rest ih =>
    have hrest := ih (Nat.lt_of_lt_of_le hnumber (t.nextNumber_le_edit e))
    rw [mem_pending_edit_iff hnumber] at hrest
    rw [List.mem_cons, not_or, ← and_assoc]
    exact hrest

/-! ### One order for what has fired and what waits -/

/-- The timers with the tickets `fired` have fired and the others wait, all in the order of their
tickets, and the clock stands between them. -/
structure Chronological (fired : List Ticket) (t : Timeline α) : Prop where
  sorted : (fired ++ t.pending.map Prod.fst).Pairwise fun a b => a.before b = true
  numbered : ∀ ticket ∈ fired ++ t.pending.map Prod.fst, ticket.number < t.nextNumber
  past : ∀ ticket ∈ fired, ticket.due ≤ t.elapsed
  upcoming : ∀ entry ∈ t.pending, t.elapsed ≤ entry.1.due

/-- Where nothing waits and nothing has fired, everything is in order. -/
theorem chronological_nil (h : t.pending = []) : t.Chronological [] where
  sorted := by rw [h]; exact .nil
  numbered := by simp [h]
  past := fun _ hticket => nomatch hticket
  upcoming := by simp [h]

namespace Chronological

theorem ordered (h : t.Chronological fired) : t.Ordered where
  sorted := List.pairwise_map.1 (List.pairwise_append.1 h.sorted).2.1
  numbered := fun _ hentry =>
    h.numbered _ (List.mem_append_right _ (List.mem_map_of_mem hentry))

theorem before (h : t.Chronological fired) {ticket : Ticket} (hticket : ticket ∈ fired)
    {entry : Ticket × α} (hentry : entry ∈ t.pending) : ticket.before entry.1 = true :=
  (List.pairwise_append.1 h.sorted).2.2 ticket hticket entry.1 (List.mem_map_of_mem hentry)

/-- A new timer comes after all that have fired: it is due no earlier than now, and its number is
the highest. -/
theorem schedule (h : t.Chronological fired) (delay : Nat) (a : α) :
    (t.schedule delay a).1.Chronological fired where
  sorted := by
    refine List.pairwise_append.2 ⟨(List.pairwise_append.1 h.sorted).1,
      List.pairwise_map.2 (h.ordered.schedule delay a).sorted,
      fun ticket hticket other hother => ?_⟩
    obtain ⟨entry, hentry, rfl⟩ := List.mem_map.1 hother
    rcases List.mem_cons.1 ((t.schedule_perm delay a).mem_iff.1 hentry) with rfl | hold
    · -- the new timer is due no earlier than now, and its number is the highest
      have hpast := h.past ticket hticket
      have hnumber := h.numbered ticket (List.mem_append_left _ hticket)
      rw [Ticket.before_iff]
      show ticket.due < t.elapsed + delay ∨
        ticket.due = t.elapsed + delay ∧ ticket.number < t.nextNumber
      omega
    · exact h.before hticket hold
  numbered := by
    intro ticket hticket
    rcases List.mem_append.1 hticket with hfired | hwaiting
    · exact Nat.lt_succ_of_lt (h.numbered ticket (List.mem_append_left _ hfired))
    · obtain ⟨entry, hentry, rfl⟩ := List.mem_map.1 hwaiting
      exact (h.ordered.schedule delay a).numbered entry hentry
  past := h.past
  upcoming := by
    intro entry hentry
    rcases List.mem_cons.1 ((t.schedule_perm delay a).mem_iff.1 hentry) with rfl | hold
    · exact Nat.le_add_right _ _
    · exact h.upcoming entry hold

/-- A timer that is cancelled leaves the order of the others. -/
theorem cancel (h : t.Chronological fired) (ticket : Ticket) :
    (t.cancel ticket).Chronological fired := by
  have hsub : (t.cancel ticket).pending.Sublist t.pending := List.filter_sublist
  have hall := (hsub.map Prod.fst).append_left fired
  exact ⟨h.sorted.sublist hall, fun other hother => h.numbered other (hall.subset hother), h.past,
    fun entry hentry => h.upcoming entry (hsub.subset hentry)⟩

theorem edit (h : t.Chronological fired) (e : Edit α) : (t.edit e).Chronological fired := by
  cases e with
  | schedule delay a => exact h.schedule delay a
  | cancel ticket => exact h.cancel ticket

/-- Whatever a callback does to the timeline, the order stays. -/
theorem editAll (h : t.Chronological fired) (edits : List (Edit α)) :
    (t.editAll edits).Chronological fired := by
  induction edits generalizing t with
  | nil => exact h
  | cons e rest ih => exact ih (h.edit e)

/-- The clock may be moved forward to a time by which nothing is due. -/
theorem reach (h : t.Chronological fired) (hlater : ∀ entry ∈ t.pending, target < entry.1.due) :
    (t.reach target).Chronological fired where
  sorted := h.sorted
  numbered := h.numbered
  past := fun ticket hticket => Nat.le_trans (h.past ticket hticket) (Nat.le_max_left _ _)
  upcoming := fun entry hentry =>
    Nat.max_le.2 ⟨h.upcoming entry hentry, Nat.le_of_lt (hlater entry hentry)⟩

end Chronological

/-! ### The timers that fire -/

/-- A timer that fires. -/
structure Firing (α : Type) where
  ticket : Ticket
  callback : α
  /-- The timeline when the callback starts to run. -/
  start : Timeline α
  /-- What the callback does to the timers. -/
  edits : List (Edit α)

namespace Firing

variable (f : Firing α)

/-- The timer as it waited. -/
def entry : Ticket × α :=
  (f.ticket, f.callback)

/-- The timeline when the callback has run. -/
def stop : Timeline α :=
  f.start.editAll f.edits

/-- The callback cancels this timer, which waits. -/
def Cancels (ticket : Ticket) : Prop :=
  ticket ∈ f.start.pending.map Prod.fst ∧ .cancel ticket ∈ f.edits

end Firing

/-- The timers that wait when these timers have fired. -/
def waitingAfter (t : Timeline α) (firings : List (Firing α)) : List (Ticket × α) :=
  match firings.getLast? with
  | none => t.pending
  | some f => f.stop.pending

theorem waitingAfter_cons (t : Timeline α) (f : Firing α) (rest : List (Firing α)) :
    t.waitingAfter (f :: rest) = f.stop.waitingAfter rest := by
  unfold waitingAfter
  rw [List.getLast?_cons]
  cases rest.getLast? <;> rfl

/-- The timer `f` is the first that is due, and its callback starts. -/
structure Starts (t : Timeline α) (target : Nat) (f : Firing α) : Prop where
  popDue? : t.popDue? target = some (f.callback, f.start)
  pending_eq : t.pending = f.entry :: f.start.pending

namespace Starts

variable {f : Firing α}

/-- A timer that fires was due by the target. -/
theorem due_le (h : t.Starts target f) : f.ticket.due ≤ target := by
  have hpop := h.popDue?
  rw [Timeline.popDue?, h.pending_eq] at hpop
  by_contra hlater
  rw [Firing.entry] at hpop
  dsimp only at hpop
  rw [if_neg hlater] at hpop
  cases hpop

/-- When a callback starts, the clock stands at the time when the timer was due, or where it stood
if that has passed. -/
theorem start_eq (h : t.Starts target f) :
    f.start = { t with elapsed := max t.elapsed f.ticket.due, pending := f.start.pending } := by
  have hpop := h.popDue?
  rw [Timeline.popDue?, h.pending_eq, Firing.entry] at hpop
  dsimp only at hpop
  rw [if_pos h.due_le] at hpop
  exact (Prod.mk.inj (Option.some.inj hpop)).2.symm

/-- In chronological order, that is the time when the timer was due. -/
theorem elapsed_eq (h : t.Starts target f) (ht : t.Chronological fired) :
    f.start.elapsed = f.ticket.due := by
  rw [h.start_eq]
  exact Nat.max_eq_right (ht.upcoming f.entry (h.pending_eq ▸ List.mem_cons_self))

/-- The timer that fires goes from those that wait to those that have fired. -/
theorem chronological (h : t.Starts target f) (ht : t.Chronological fired) :
    f.start.Chronological (fired ++ [f.ticket]) := by
  have hnumber : f.start.nextNumber = t.nextNumber := by rw [h.start_eq]
  have htickets : (fired ++ [f.ticket]) ++ f.start.pending.map Prod.fst =
      fired ++ t.pending.map Prod.fst := by
    rw [h.pending_eq, List.append_assoc]
    rfl
  refine ⟨htickets ▸ ht.sorted, ?_, ?_,
    Excerpt.upcoming_of_pop ht.ordered h.pending_eq (h.elapsed_eq ht)⟩
  · rw [htickets, hnumber]
    exact ht.numbered
  · intro ticket hticket
    rw [h.elapsed_eq ht]
    rcases List.mem_append.1 hticket with hold | hnew
    · have hbefore := ht.before hold (h.pending_eq ▸ List.mem_cons_self : f.entry ∈ t.pending)
      rw [Ticket.before_iff, Firing.entry] at hbefore
      dsimp only at hbefore
      omega
    · exact Nat.le_of_eq (congrArg Ticket.due (List.mem_singleton.1 hnew))

/-- The order goes on with the timer that has fired. -/
theorem chronological_stop (h : t.Starts target f) (ht : t.Chronological fired) :
    f.stop.Chronological (fired ++ [f.ticket]) :=
  (h.chronological ht).editAll f.edits

end Starts

end Timeline

namespace Owner

open Timeline

variable {σ α : Type} {o : Owner σ α} {s s' s₁ : σ} {target limit millis n : Nat}
  {fires : List (Nat × α)} {firings pre post : List (Firing α)} {fired : List Ticket}

/-- A system whose callbacks do nothing to the timeline but schedule and cancel timers. -/
structure Scripted (o : Owner σ α) : Prop where
  timeline_withTimeline : ∀ s t, o.timeline (o.withTimeline s t) = t
  timeline_fire : ∀ {s a s'}, o.fire s a = some s' →
    ∃ edits, o.timeline s' = (o.timeline s).editAll edits

/-- Time passes until `target`: these timers fire, one after the other. -/
inductive Performs (o : Owner σ α) (target : Nat) : σ → List (Firing α) → σ → Prop
  /-- Nothing is due any more. -/
  | reach {s : σ} (hnone : (o.timeline s).popDue? target = none) :
    Performs o target s [] (o.withTimeline s ((o.timeline s).reach target))
  /-- The first timer that is due fires, its callback runs, and time goes on to pass. -/
  | fire {s s' s'' : σ} {f : Firing α} {firings : List (Firing α)}
    (hstarts : (o.timeline s).Starts target f)
    (hfire : o.fire (o.withTimeline s f.start) f.callback = some s')
    (hstop : o.timeline s' = f.stop) (hrest : Performs o target s' firings s'') :
    Performs o target s (f :: firings) s''

/-! ### What happens while time passes -/

/-- The fires of a span of time are the callbacks that run in it. -/
theorem Passes.exists_performs (ho : o.Scripted) (h : o.Passes target s fires s') :
    ∃ firings, o.Performs target s firings s' ∧ firings.length = fires.length := by
  induction h with
  | reach hnone => exact ⟨[], .reach hnone, rfl⟩
  | @fire s s' s'' a t fires hpop hfire _ ih =>
    obtain ⟨ticket, hpending, -⟩ := popDue?_eq_some hpop
    obtain ⟨edits, hedits⟩ := ho.timeline_fire hfire
    rw [ho.timeline_withTimeline] at hedits
    obtain ⟨firings, hperforms, hlength⟩ := ih
    refine ⟨⟨ticket, a, t, edits⟩ :: firings, .fire ⟨hpop, hpending⟩ hfire hedits hperforms, ?_⟩
    rw [List.length_cons, List.length_cons, hlength]

theorem Performs.passes (h : o.Performs target s firings s') :
    o.Passes target s (firings.map fun f => (f.start.elapsed, f.callback)) s' := by
  induction h with
  | reach hnone => exact .reach hnone
  | fire hstarts hfire _ _ ih => exact .fire hstarts.popDue? hfire ih

/-- Letting time pass comes to an end exactly if the callbacks that run in it are no more than the
limit allows. -/
theorem advance_eq_some_iff (ho : o.Scripted) : o.advance limit millis s = some (n, s') ↔
    ∃ firings, o.Performs ((o.timeline s).elapsed + millis) s firings s' ∧
      firings.length ≤ limit ∧ n = firings.length := by
  unfold advance
  rw [advanceTo_eq_some_iff]
  -- the callbacks are told from the fires, and the fires from the callbacks
  constructor
  · rintro ⟨fires, hpasses, hlimit, rfl⟩
    obtain ⟨firings, hperforms, hlength⟩ := hpasses.exists_performs ho
    exact ⟨firings, hperforms, hlength ▸ hlimit, by rw [hlength, Nat.zero_add]⟩
  · rintro ⟨firings, hperforms, hlimit, rfl⟩
    exact ⟨_, hperforms.passes, by rwa [List.length_map], by rw [List.length_map, Nat.zero_add]⟩

namespace Performs

/-- The order is kept. -/
theorem chronological (ho : o.Scripted) (h : o.Performs target s firings s')
    (hs : (o.timeline s).Chronological fired) :
    (o.timeline s').Chronological (fired ++ firings.map Firing.ticket) := by
  induction h generalizing fired with
  | reach hnone =>
    rw [ho.timeline_withTimeline, List.map_nil, List.append_nil]
    exact hs.reach (hs.ordered.lt_due hnone)
  | @fire s s' s'' f firings hstarts hfire hstop _ ih =>
    have hnext := ih (hstop ▸ hstarts.chronological_stop hs)
    rwa [List.append_assoc] at hnext

/-- A stretch of time may be cut between two callbacks. -/
theorem cut (h : o.Performs target s (pre ++ post) s')
    (hs : (o.timeline s).Chronological fired) :
    ∃ s₁, o.Performs target s₁ post s' ∧
      (o.timeline s₁).pending = (o.timeline s).waitingAfter pre ∧
      (o.timeline s₁).Chronological (fired ++ pre.map Firing.ticket) := by
  induction pre generalizing s fired with
  | nil => exact ⟨s, h, rfl, by rwa [List.map_nil, List.append_nil]⟩
  | cons f pre ih =>
    cases h with
    | fire hstarts hfire hstop hrest =>
      obtain ⟨s₁, hpost, hpending, hs₁⟩ :=
        ih hrest (hstop ▸ hstarts.chronological_stop hs)
      refine ⟨s₁, hpost, by rw [hpending, hstop, waitingAfter_cons], ?_⟩
      rwa [List.append_assoc] at hs₁

/-- Each callback starts when its timer is due, and by the target. -/
theorem starts (h : o.Performs target s firings s')
    (hs : (o.timeline s).Chronological fired) {f : Firing α} (hf : f ∈ firings) :
    f.ticket.due ≤ target ∧ f.start.elapsed = f.ticket.due := by
  induction h generalizing fired with
  | reach => cases hf
  | @fire s s' s'' g firings hstarts hfire hstop _ ih =>
    rcases List.mem_cons.1 hf with rfl | hf
    · exact ⟨hstarts.due_le, hstarts.elapsed_eq hs⟩
    · exact ih (hstop ▸ hstarts.chronological_stop hs) hf

/-- Time passes as far as it is told to. -/
theorem elapsed_eq (ho : o.Scripted) (h : o.Performs target s firings s')
    (hle : (o.timeline s).elapsed ≤ target) : (o.timeline s').elapsed = target := by
  induction h with
  | reach =>
    rw [ho.timeline_withTimeline]
    exact Nat.max_eq_right hle
  | @fire s s' s'' f firings hstarts _ hstop _ ih =>
    refine ih ?_
    rw [hstop, Firing.stop, elapsed_editAll, hstarts.start_eq]
    exact Nat.max_le.2 ⟨hle, hstarts.due_le⟩

/-- What still waits is due later. -/
theorem lt_due (ho : o.Scripted) (h : o.Performs target s firings s')
    (hs : (o.timeline s).Chronological fired) :
    ∀ entry ∈ (o.timeline s').pending, target < entry.1.due := by
  induction h generalizing fired with
  | reach hnone =>
    rw [ho.timeline_withTimeline]
    exact hs.ordered.lt_due hnone
  | @fire s s' s'' f firings hstarts hfire hstop _ ih =>
    exact ih (hstop ▸ hstarts.chronological_stop hs)

/-- At the end those timers wait that are left by the last callback. -/
theorem pending_eq (ho : o.Scripted) (h : o.Performs target s firings s') :
    (o.timeline s').pending = (o.timeline s).waitingAfter firings := by
  induction h with
  | reach =>
    rw [ho.timeline_withTimeline]
    rfl
  | fire _ _ hstop _ ih => rw [ih, hstop, waitingAfter_cons]

/-! ### Which timers fire -/

/-- A timer that has fired neither waits nor fires again. -/
theorem not_waiting (h : o.Performs target s firings s')
    (hs : (o.timeline s).Chronological fired) {ticket : Ticket} (hticket : ticket ∈ fired) :
    ∀ f ∈ firings, ∀ entry ∈ f.entry :: f.start.pending, entry.1 ≠ ticket := by
  induction h generalizing fired with
  | reach => exact fun _ hf => nomatch hf
  | @fire s s' s'' g firings hstarts hfire hstop _ ih =>
    intro f hf
    rcases List.mem_cons.1 hf with rfl | hf
    · -- fired and waiting timers stand in one strict order, so none is both
      intro entry hentry
      rw [← hstarts.pending_eq] at hentry
      exact (Ticket.ne_of_before (hs.before hticket hentry)).symm
    · exact ih (hstop ▸ hstarts.chronological_stop hs)
        (List.mem_append_left _ hticket) f hf

/-- A timer that does not wait, under a number that has been given out, does not fire. -/
theorem not_mem_of_not_pending (h : o.Performs target s firings s')
    {entry : Ticket × α} (hnumber : entry.1.number < (o.timeline s).nextNumber)
    (hgone : entry ∉ (o.timeline s).pending) : ∀ f ∈ firings, f.entry ≠ entry := by
  induction h with
  | reach => exact fun _ hf => nomatch hf
  | @fire s s' s'' g firings hstarts hfire hstop _ ih =>
    rw [hstarts.pending_eq, List.mem_cons, not_or] at hgone
    intro f hf
    rcases List.mem_cons.1 hf with rfl | hf
    · exact Ne.symm hgone.1
    · -- no number is given out twice, so the callback cannot schedule this timer again
      have hstart : entry.1.number < g.start.nextNumber := by rwa [hstarts.start_eq]
      rw [hstop] at ih
      refine ih (Nat.lt_of_lt_of_le hstart (g.start.nextNumber_le_editAll g.edits)) ?_ f hf
      rw [Firing.stop, mem_pending_editAll_iff hstart]
      exact fun hwaits => hgone.2 hwaits.1

/-- A timer that waits fires if and only if it is due in time and no callback cancels it while it
waits. -/
theorem mem_iff (h : o.Performs target s firings s')
    (hs : (o.timeline s).Chronological fired) {entry : Ticket × α}
    (hentry : entry ∈ (o.timeline s).pending) : (∃ f ∈ firings, f.entry = entry) ↔
      entry.1.due ≤ target ∧ ∀ f ∈ firings, ¬ f.Cancels entry.1 := by
  induction h generalizing fired with
  | reach hnone =>
    have hlater := hs.ordered.lt_due hnone entry hentry
    exact ⟨fun ⟨f, hf, _⟩ => (nomatch hf), fun ⟨hdue, _⟩ => absurd hdue (Nat.not_le.2 hlater)⟩
  | @fire s s' s'' f firings hstarts hfire hstop hrest ih =>
    have hstart := hstarts.chronological hs
    have hs' := hstop ▸ hstarts.chronological_stop hs
    have hsplit := hentry
    rw [hstarts.pending_eq] at hsplit
    rcases List.mem_cons.1 hsplit with rfl | hwaits
    · -- the timer fires now, and what has fired does not wait any more
      refine ⟨fun _ => ⟨hstarts.due_le, fun g hg hcancels => ?_⟩,
        fun _ => ⟨f, List.mem_cons_self, rfl⟩⟩
      obtain ⟨other, hother, hticket⟩ := List.mem_map.1 hcancels.1
      rcases List.mem_cons.1 hg with rfl | hg
      · refine Ticket.ne_of_before (hstart.before ?_ hother) hticket.symm
        exact List.mem_append_right _ List.mem_cons_self
      · exact hrest.not_waiting hs' (List.mem_append_right _ List.mem_cons_self) g hg other
          (List.mem_cons_of_mem _ hother) hticket
    · have hnumber := hstart.ordered.numbered entry hwaits
      have hne : f.entry ≠ entry := fun heq => Ticket.ne_of_before
        (hstart.before (List.mem_append_right _ List.mem_cons_self) hwaits) (congrArg Prod.fst heq)
      have hnext : entry ∈ (o.timeline s').pending ↔ .cancel entry.1 ∉ f.edits := by
        rw [hstop, Firing.stop, mem_pending_editAll_iff hnumber]
        exact and_iff_right hwaits
      have hcancels : f.Cancels entry.1 ↔ .cancel entry.1 ∈ f.edits :=
        and_iff_right (List.mem_map_of_mem hwaits)
      rw [List.forall_mem_cons, hcancels, List.exists_mem_cons_iff, or_iff_right hne]
      by_cases hcancel : .cancel entry.1 ∈ f.edits
      · -- the callback cancels the timer
        have hlater : entry.1.number < (o.timeline s').nextNumber :=
          hstop ▸ Nat.lt_of_lt_of_le hnumber (f.start.nextNumber_le_editAll f.edits)
        have hgone := hrest.not_mem_of_not_pending hlater fun h => hnext.1 h hcancel
        exact ⟨fun ⟨g, hg, heq⟩ => absurd heq (hgone g hg), fun ⟨_, hno, _⟩ => absurd hcancel hno⟩
      · -- the timer waits on when the callback has run
        rw [ih hs' (hnext.2 hcancel)]
        exact and_congr_right fun _ => (and_iff_right hcancel).symm

end Performs

/-! ### Courses -/

/-- The states that a system comes to from one where no timer waits, when timers are scheduled and
cancelled from outside and time passes, with everything that has fired until then. -/
inductive Course (o : Owner σ α) : σ → List (Firing α) → Prop
  | start {s : σ} (hnil : (o.timeline s).pending = []) : Course o s []
  | edit {s s' : σ} {fired : List (Firing α)} (hs : Course o s fired) (e : Edit α)
    (hedit : o.timeline s' = (o.timeline s).edit e) : Course o s' fired
  | advance {s s' : σ} {fired firings : List (Firing α)} (hs : Course o s fired) (millis : Nat)
    (hperforms : o.Performs ((o.timeline s).elapsed + millis) s firings s') :
    Course o s' (fired ++ firings)

/-- Whatever has been done so far, the timers that have fired come before those that wait. -/
theorem Course.chronological (ho : o.Scripted) {fired : List (Firing α)} (h : o.Course s fired) :
    (o.timeline s).Chronological (fired.map Firing.ticket) := by
  induction h with
  | start hnil => exact chronological_nil hnil
  | edit _ e hedit ih => exact hedit ▸ ih.edit e
  | advance _ millis hperforms ih =>
    rw [List.map_append]
    exact hperforms.chronological ho ih

/-- Between steps no timer is overdue. While time passes, the timers that fire are those that wait
at their turn, so those that are due in time and that no earlier callback cancels; they fire in the
order of their tickets, each once in the whole course, with the clock at its due time while the
callback runs. Then the clock has moved by the given time, and what waits is due later. -/
theorem Course.fires_exactly (ho : o.Scripted) {fired : List (Firing α)} (hs : o.Course s fired) :
    (∀ entry ∈ (o.timeline s).pending, (o.timeline s).elapsed ≤ entry.1.due) ∧
    ∀ {limit millis n : Nat} {s' : σ}, o.advance limit millis s = some (n, s') →
      ∃ firings, o.Performs ((o.timeline s).elapsed + millis) s firings s' ∧
        o.Course s' (fired ++ firings) ∧ n = firings.length ∧
        ((fired ++ firings).map Firing.ticket).Pairwise (fun a b => a.before b = true) ∧
        (∀ f ∈ firings, f.ticket.due ≤ (o.timeline s).elapsed + millis ∧
          ∀ edits, edits <+: f.edits → (f.start.editAll edits).elapsed = f.ticket.due) ∧
        (∀ pre f post, firings = pre ++ f :: post →
          (o.timeline s).waitingAfter pre = f.entry :: f.start.pending) ∧
        (∀ pre post, firings = pre ++ post → ∀ entry ∈ (o.timeline s).waitingAfter pre,
          (∃ f ∈ post, f.entry = entry) ↔ entry.1.due ≤ (o.timeline s).elapsed + millis ∧
            ∀ f ∈ post, ¬ f.Cancels entry.1) ∧
        (o.timeline s').elapsed = (o.timeline s).elapsed + millis ∧
        (o.timeline s').pending = (o.timeline s).waitingAfter firings ∧
        ∀ entry ∈ (o.timeline s').pending, (o.timeline s).elapsed + millis < entry.1.due := by
  have horder := hs.chronological ho
  refine ⟨horder.upcoming, fun {limit millis n s'} hadvance => ?_⟩
  obtain ⟨firings, hperforms, -, hcount⟩ := (advance_eq_some_iff ho).1 hadvance
  have hcourse := hs.advance millis hperforms
  refine ⟨firings, hperforms, hcourse, hcount, (List.pairwise_append.1 (hcourse.chronological
    ho).sorted).1, fun f hf => ?_, ?_, ?_, hperforms.elapsed_eq ho (Nat.le_add_right _ _),
    hperforms.pending_eq ho, hperforms.lt_due ho horder⟩
  · obtain ⟨hdue, helapsed⟩ := hperforms.starts horder hf
    exact ⟨hdue, fun edits _ => (f.start.elapsed_editAll edits).trans helapsed⟩
  · rintro pre f post rfl
    obtain ⟨s₁, hpost, hpending, -⟩ := hperforms.cut horder
    cases hpost with
    | fire hstarts => exact hpending.symm.trans hstarts.pending_eq
  · rintro pre post rfl entry hentry
    obtain ⟨s₁, hpost, hpending, hs₁⟩ := hperforms.cut horder
    exact hpost.mem_iff hs₁ (hpending ▸ hentry)

end Owner

namespace Agenda

open Timeline

theorem timeline_perform (a : Agenda) (i : Instruction) :
    ∃ edits, (a.perform i).timeline = a.timeline.editAll edits := by
  cases i with
  | schedule label delay script => exact ⟨[.schedule delay (label, script)], rfl⟩
  | cancel label =>
    cases hticket : a.tickets.find? label with
    | none => exact ⟨[], by rw [perform, hticket]; rfl⟩
    | some ticket => exact ⟨[.cancel ticket], by rw [perform, hticket]; rfl⟩

/-- The instructions of a script come to edits of the timeline. -/
theorem timeline_foldl_perform (a : Agenda) (script : List Instruction) :
    ∃ edits, (script.foldl perform a).timeline = a.timeline.editAll edits := by
  induction script generalizing a with
  | nil => exact ⟨[], rfl⟩
  | cons i script ih =>
    obtain ⟨first, hfirst⟩ := a.timeline_perform i
    obtain ⟨rest, hrest⟩ := ih (a.perform i)
    refine ⟨first ++ rest, ?_⟩
    rw [List.foldl_cons, hrest, hfirst]
    exact List.foldl_append.symm

theorem scripted_owner : owner.Scripted where
  timeline_withTimeline := fun _ _ => rfl
  timeline_fire := by
    rintro a ⟨label, script⟩ _ ⟨⟩
    exact timeline_foldl_perform _ script

/-- What the first timer of `crowded` does. -/
def clearing : List Instruction :=
  [.schedule "again" 0 [], .cancel "second", .schedule "late" 5 []]

def idle : Agenda :=
  { timeline := { start := ⟨0, ⟨0, 0⟩⟩ } }

/-- An agenda with two timers that are due at once, the first of which cancels the second. -/
def crowded : Agenda :=
  (idle.perform (.schedule "first" 10 clearing)).perform (.schedule "second" 10 [])

theorem course_crowded : owner.Course crowded [] := by
  have hidle : owner.Course idle [] := .start rfl
  have hfirst : owner.Course (idle.perform (.schedule "first" 10 clearing)) [] :=
    hidle.edit (.schedule 10 ("first", clearing)) rfl
  exact hfirst.edit (.schedule 10 ("second", [])) rfl

/-- The second timer is cancelled when it is due, and the new one fires at once. -/
theorem fires_exactly_crowded : owner.Scripted ∧ owner.Course crowded [] ∧
    ∃ s', owner.advance 5 12 crowded = some (2, s') ∧ s'.fired = [("again", 10), ("first", 10)] ∧
      ∃ firings, owner.Performs 12 crowded firings s' ∧ 2 = firings.length ∧
        (firings.map Firing.ticket).Pairwise (fun a b => a.before b = true) ∧
        (∀ entry ∈ crowded.timeline.pending, (∃ f ∈ firings, f.entry = entry) ↔
          entry.1.due ≤ 12 ∧ ∀ f ∈ firings, ¬ f.Cancels entry.1) ∧
        s'.timeline.elapsed = 12 := by
  obtain ⟨-, hadvance⟩ := course_crowded.fires_exactly scripted_owner
  obtain ⟨firings, hperforms, -, hcount, hsorted, -, -, hmem, helapsed, -⟩ :=
    hadvance (by rfl : owner.advance 5 12 crowded = some (2, _))
  exact ⟨scripted_owner, course_crowded, _, rfl, rfl, firings, hperforms, hcount, hsorted,
    hmem [] firings rfl, helapsed⟩

end Agenda

end SignalGraph
