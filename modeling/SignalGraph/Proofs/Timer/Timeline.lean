import Mathlib.Data.List.Perm.Basic
import SignalGraph.Timer.Timeline

/-!
# The waiting timers of a timeline

`Timeline.Ordered` says that the waiting timers stand in the order in which they fire, under numbers
that have been given out. Every operation of a timeline keeps it. So no two of them share a ticket
(`Ordered.nodup_tickets`), and scheduling and cancelling add and remove exactly one
(`schedule_perm`, `Ordered.cancel_perm`). What a single fire keeps is kept by letting time pass
(`Owner.advanceTo_induct`).
-/

namespace SignalGraph

namespace Ticket

/-- Tickets are ordered by the time when they are due, and among those due at once by their
numbers. -/
theorem before_iff (a b : Ticket) :
    a.before b = true ↔ a.due < b.due ∨ a.due = b.due ∧ a.number < b.number := by
  simp [before]

theorem before_trans {a b c : Ticket} (h : a.before b = true) (h' : b.before c = true) :
    a.before c = true := by
  rw [before_iff] at *
  omega

theorem ne_of_before {a b : Ticket} (h : a.before b = true) : a ≠ b := by
  rintro rfl
  rw [before_iff] at h
  omega

/-- A ticket with a smaller number comes before one that does not come before it. -/
theorem before_of_not_before {a b : Ticket} (h : ¬ a.before b = true)
    (hne : b.number < a.number) : b.before a = true := by
  rw [before_iff] at *
  omega

end Ticket

namespace Timeline

variable {α : Type}

/-- The waiting timers stand in the order in which they fire, and their numbers have been given
out. -/
structure Ordered (t : Timeline α) : Prop where
  sorted : t.pending.Pairwise fun a b => a.1.before b.1 = true
  numbered : ∀ entry ∈ t.pending, entry.1.number < t.nextNumber

theorem ordered_of_pending_eq_nil {t : Timeline α} (h : t.pending = []) : t.Ordered :=
  ⟨by rw [h]; exact .nil, by simp [h]⟩

/-! ### Putting a timer in its place -/

/-- An inserted timer is added to those that wait. -/
theorem insertPending_perm (ticket : Ticket) (a : α) (l : List (Ticket × α)) :
    (insertPending ticket a l).Perm ((ticket, a) :: l) := by
  induction l with
  | nil => exact .refl _
  | cons entry rest ih =>
    unfold insertPending
    split
    · exact .refl _
    · exact (ih.cons entry).trans (.swap _ _ _)

/-- It is inserted at its place, behind those that are due at the same time. -/
theorem sorted_insertPending {ticket : Ticket} {a : α} {l : List (Ticket × α)}
    (h : l.Pairwise fun a b => a.1.before b.1 = true)
    (hnew : ∀ entry ∈ l, entry.1.number < ticket.number) :
    (insertPending ticket a l).Pairwise fun a b => a.1.before b.1 = true := by
  induction l with
  | nil => exact List.pairwise_singleton _ _
  | cons entry rest ih =>
    obtain ⟨hfirst, hrest⟩ := List.pairwise_cons.1 h
    unfold insertPending
    split
    · next hbefore =>
      refine List.pairwise_cons.2 ⟨fun other hother => ?_, h⟩
      rcases List.mem_cons.1 hother with rfl | hother
      · exact hbefore
      · exact Ticket.before_trans hbefore (hfirst other hother)
    · next hbefore =>
      refine List.pairwise_cons.2 ⟨fun other hother => ?_, ih hrest fun e he => ?_⟩
      · rcases List.mem_cons.1 ((insertPending_perm _ _ _).mem_iff.1 hother) with rfl | hother
        · exact Ticket.before_of_not_before hbefore (hnew entry List.mem_cons_self)
        · exact hfirst other hother
      · exact hnew e (List.mem_cons_of_mem _ he)

/-! ### Operations -/

theorem schedule_perm (t : Timeline α) (delay : Nat) (a : α) :
    (t.schedule delay a).1.pending.Perm (((t.schedule delay a).2, a) :: t.pending) :=
  insertPending_perm _ _ _

namespace Ordered

variable {t : Timeline α}

/-- No two timers have the same ticket. -/
theorem nodup_tickets (h : t.Ordered) : (t.pending.map Prod.fst).Nodup := by
  rw [List.Nodup, List.pairwise_map]
  exact h.sorted.imp Ticket.ne_of_before

/-- Scheduling keeps the order. -/
theorem schedule (h : t.Ordered) (delay : Nat) (a : α) : (t.schedule delay a).1.Ordered where
  sorted := sorted_insertPending h.sorted h.numbered
  numbered := by
    intro entry hentry
    show entry.1.number < t.nextNumber + 1
    rcases List.mem_cons.1 ((schedule_perm t delay a).mem_iff.1 hentry) with rfl | hold
    · exact Nat.lt_succ_self _
    · exact Nat.lt_succ_of_lt (h.numbered entry hold)

theorem cancel (h : t.Ordered) (ticket : Ticket) : (t.cancel ticket).Ordered where
  sorted := h.sorted.filter _
  numbered := fun entry hentry => h.numbered entry (List.mem_filter.1 hentry).1

/-- Cancelling a waiting timer takes away that timer only. -/
theorem cancel_perm (h : t.Ordered) {ticket : Ticket} {a : α} {rest : List (Ticket × α)}
    (hperm : t.pending.Perm ((ticket, a) :: rest)) : (t.cancel ticket).pending.Perm rest := by
  have hnodup := (hperm.map Prod.fst).nodup_iff.1 h.nodup_tickets
  rw [List.map_cons, List.nodup_cons] at hnodup
  -- no other timer has the ticket
  have hrest : rest.filter (fun entry => entry.1 != ticket) = rest := by
    refine List.filter_eq_self.2 fun entry hentry => bne_iff_ne.2 ?_
    rintro rfl
    exact hnodup.1 (List.mem_map.2 ⟨entry, hentry, rfl⟩)
  have hfilter := hperm.filter fun entry => entry.1 != ticket
  rw [List.filter_cons_of_neg (by simp), hrest] at hfilter
  exact hfilter

theorem shiftLocal (h : t.Ordered) (millis : Int) : (t.shiftLocal millis).Ordered :=
  ⟨h.sorted, h.numbered⟩

theorem reach (h : t.Ordered) (target : Nat) : (t.reach target).Ordered :=
  ⟨h.sorted, h.numbered⟩

end Ordered

/-- The first timer that is due leaves the others waiting. -/
theorem popDue?_eq_some {t t' : Timeline α} {target : Nat} {a : α}
    (h : t.popDue? target = some (a, t')) :
    ∃ ticket, t.pending = (ticket, a) :: t'.pending ∧ t'.nextNumber = t.nextNumber := by
  unfold popDue? at h
  split at h
  · cases h
  · next ticket b rest heq =>
    split at h
    · cases h
      exact ⟨ticket, heq, rfl⟩
    · cases h

theorem Ordered.popDue {t t' : Timeline α} {target : Nat} {a : α} (h : t.Ordered)
    (hpop : t.popDue? target = some (a, t')) : t'.Ordered := by
  obtain ⟨ticket, heq, hnumber⟩ := popDue?_eq_some hpop
  have hsorted := h.sorted
  rw [heq] at hsorted
  refine ⟨(List.pairwise_cons.1 hsorted).2, fun entry hentry => ?_⟩
  rw [hnumber]
  exact h.numbered entry (heq ▸ List.mem_cons_of_mem _ hentry)

/-- If nothing is due by some time, then every timer that waits is due later. -/
theorem Ordered.lt_due {t : Timeline α} {target : Nat} (h : t.Ordered)
    (hpop : t.popDue? target = none) : ∀ entry ∈ t.pending, target < entry.1.due := by
  intro entry hentry
  have hsorted := h.sorted
  unfold popDue? at hpop
  cases hpending : t.pending with
  | nil =>
    rw [hpending] at hentry
    cases hentry
  | cons first rest =>
    rw [hpending] at hpop hsorted hentry
    have hfirst : ¬ first.1.due ≤ target := by simpa using hpop
    rcases List.mem_cons.1 hentry with rfl | hentry
    · omega
    · have hbefore := (Ticket.before_iff _ _).1 ((List.pairwise_cons.1 hsorted).1 entry hentry)
      omega

/-- Timelines that show the same times. -/
structure SameTimes (t t' : Timeline α) : Prop where
  start_eq : t.start = t'.start
  elapsed_eq : t.elapsed = t'.elapsed
  localShift_eq : t.localShift = t'.localShift

theorem SameTimes.refl (t : Timeline α) : t.SameTimes t :=
  ⟨rfl, rfl, rfl⟩

theorem SameTimes.trans {t t' t'' : Timeline α} (h : t.SameTimes t') (h' : t'.SameTimes t'') :
    t.SameTimes t'' :=
  ⟨h.start_eq.trans h'.start_eq, h.elapsed_eq.trans h'.elapsed_eq,
    h.localShift_eq.trans h'.localShift_eq⟩

end Timeline

namespace Owner

variable {σ α : Type} {o : Owner σ α} {target limit fired n : Nat} {s s' s'' : σ} {a : α}
  {t : Timeline α}

/-- Nothing is due any more. -/
theorem advanceTo_of_none (h : (o.timeline s).popDue? target = none) (limit fired : Nat) :
    o.advanceTo target limit fired s =
      some (fired, o.withTimeline s ((o.timeline s).reach target)) := by
  unfold advanceTo
  rw [h]

/-- A timer falls due. -/
theorem advanceTo_of_some (h : (o.timeline s).popDue? target = some (a, t))
    (hfire : o.fire (o.withTimeline s t) a = some s') (limit fired : Nat) :
    o.advanceTo target (limit + 1) fired s = o.advanceTo target limit (fired + 1) s' := by
  rw [advanceTo, h]
  dsimp only
  rw [hfire]

/-- The first thing that happens while time passes. -/
theorem advanceTo_cases (h : o.advanceTo target limit fired s = some (n, s')) :
    ((o.timeline s).popDue? target = none ∧
        s' = o.withTimeline s ((o.timeline s).reach target)) ∨
      ∃ rest a t s'', limit = rest + 1 ∧ (o.timeline s).popDue? target = some (a, t) ∧
        o.fire (o.withTimeline s t) a = some s'' ∧
        o.advanceTo target rest (fired + 1) s'' = some (n, s') := by
  -- either nothing is due any more, or a turn of the limit is spent on the next timer
  cases hpop : (o.timeline s).popDue? target with
  | none =>
    rw [advanceTo_of_none hpop] at h
    cases h
    exact .inl ⟨rfl, rfl⟩
  | some popped =>
    obtain ⟨a, t⟩ := popped
    cases limit with
    | zero =>
      rw [advanceTo, hpop] at h
      cases h
    | succ rest =>
      cases hfire : o.fire (o.withTimeline s t) a with
      | none =>
        rw [advanceTo, hpop] at h
        dsimp only at h
        rw [hfire] at h
        cases h
      | some s'' =>
        rw [advanceTo_of_some hpop hfire] at h
        exact .inr ⟨rest, a, t, s'', rfl, rfl, hfire, h⟩

end Owner

/-- What every fire keeps, and reaching the end of the time that passes, is kept by letting time
pass. -/
theorem Owner.advanceTo_induct {σ α : Type} {o : Owner σ α} {target : Nat} {P : σ → Prop}
    (hfire : ∀ {s a t s'}, (o.timeline s).popDue? target = some (a, t) →
      o.fire (o.withTimeline s t) a = some s' → P s → P s')
    (hreach : ∀ {s}, P s → P (o.withTimeline s ((o.timeline s).reach target)))
    {limit fired n : Nat} {s s' : σ} (h : o.advanceTo target limit fired s = some (n, s'))
    (hs : P s) : P s' := by
  induction limit using Nat.strongRecOn generalizing fired s with
  | ind limit ih =>
    rcases advanceTo_cases h with ⟨-, rfl⟩ | ⟨rest, a, t, s'', rfl, hpop, hfired, hrest⟩
    · exact hreach hs
    · exact ih rest (Nat.lt_succ_self rest) hrest (hfire hpop hfired hs)

/-- A map between systems that goes along with what their timelines do. -/
structure Owner.Hom {σ τ α β : Type} (o : Owner σ α) (o' : Owner τ β) (f : σ → τ) (k : α → β)
    (g : Timeline α → Timeline β) : Prop where
  timeline : ∀ s, o'.timeline (f s) = g (o.timeline s)
  withTimeline : ∀ s t, o'.withTimeline (f s) (g t) = f (o.withTimeline s t)
  fire : ∀ s a, o'.fire (f s) (k a) = (o.fire s a).map f
  popDue? : ∀ t target, (g t).popDue? target = (t.popDue? target).map (Prod.map k g)
  reach : ∀ t target, (g t).reach target = g (t.reach target)

/-- A map of owners that respects timelines and fires respects the passing of time. -/
theorem Owner.Hom.advanceTo {σ τ α β : Type} {o : Owner σ α} {o' : Owner τ β} {f : σ → τ}
    {k : α → β} {g : Timeline α → Timeline β} (h : Owner.Hom o o' f k g)
    (target turns fired : Nat) (s : σ) :
    o'.advanceTo target turns fired (f s) =
      (o.advanceTo target turns fired s).map (Prod.map id f) := by
  -- where nothing is due, both clocks are moved to the same time
  have hreach : ∀ s, o'.withTimeline (f s) ((o'.timeline (f s)).reach target) =
      f (o.withTimeline s ((o.timeline s).reach target)) := by
    intro s
    rw [h.timeline, h.reach, h.withTimeline]
  induction turns generalizing fired s with
  | zero =>
    unfold Owner.advanceTo
    rw [hreach, h.timeline, h.popDue?]
    cases (o.timeline s).popDue? target <;> rfl
  | succ turns ih =>
    unfold Owner.advanceTo
    rw [hreach, h.timeline, h.popDue?]
    cases (o.timeline s).popDue? target with
    | none => rfl
    | some popped =>
      simp only [Option.map_some, Prod.map, h.withTimeline, h.fire]
      cases o.fire (o.withTimeline s popped.2) popped.1 with
      | none => rfl
      | some s' => exact ih (fired + 1) s'

end SignalGraph
