import Mathlib.Data.List.Nodup
import SignalGraph.Proofs.Timer.Timeline

/-!
# Excerpts of a timeline

A timeline is an excerpt of another one (`Timeline.Excerpt`) if it shows the same start and the same
shift, does not run ahead, and holds a certain part of the timers, due at the same times and in the
same order. What is done to that part on both timelines, and what is done to the other timers on the
one that has them, leaves an excerpt: scheduling (`Excerpt.schedule`, `Excerpt.schedule_other`),
cancelling (`Excerpt.cancel`, `Excerpt.cancel_other`) and the timers that fall due
(`Excerpt.popDue`, `Excerpt.popDue_other`).
-/

namespace SignalGraph

namespace Timeline

variable {α : Type}

/-- Timers of two timelines, paired off. -/
abbrev Ties (α : Type) := List ((Ticket × α) × (Ticket × α))

/-! ### Putting a timer in its place among some of the others -/

theorem insertPending_of_before {ticket : Ticket} {a : α} {l : List (Ticket × α)}
    (h : ∀ entry ∈ l, ticket.before entry.1 = true) :
    insertPending ticket a l = (ticket, a) :: l := by
  cases l with
  | nil => rfl
  | cons entry rest => rw [insertPending, if_pos (h entry List.mem_cons_self)]

theorem filter_insertPending {ticket : Ticket} {a : α} {p : Ticket × α → Bool}
    (hp : p (ticket, a) = true) {l : List (Ticket × α)}
    (h : l.Pairwise fun a b => a.1.before b.1 = true) :
    (insertPending ticket a l).filter p = insertPending ticket a (l.filter p) := by
  induction l with
  | nil => rw [List.filter_nil, insertPending, List.filter_cons_of_pos hp, List.filter_nil]
  | cons entry rest ih =>
    obtain ⟨hfirst, hrest⟩ := List.pairwise_cons.1 h
    by_cases hbefore : ticket.before entry.1 = true
    · -- the new timer comes before all others, so also before those that are kept
      have hall : ∀ other ∈ (entry :: rest).filter p, ticket.before other.1 = true := by
        intro other hother
        rcases List.mem_cons.1 (List.mem_filter.1 hother).1 with rfl | hmem
        · exact hbefore
        · exact Ticket.before_trans hbefore (hfirst other hmem)
      rw [insertPending, if_pos hbefore, List.filter_cons_of_pos hp, insertPending_of_before hall]
    · rw [insertPending, if_neg hbefore]
      by_cases hentry : p entry = true
      · rw [List.filter_cons_of_pos hentry, List.filter_cons_of_pos hentry, insertPending,
          if_neg hbefore, ih hrest]
      · rw [List.filter_cons_of_neg hentry, List.filter_cons_of_neg hentry, ih hrest]

theorem filter_insertPending_of_not {ticket : Ticket} {a : α} {p : Ticket × α → Bool}
    (hp : ¬ p (ticket, a) = true) (l : List (Ticket × α)) :
    (insertPending ticket a l).filter p = l.filter p := by
  induction l with
  | nil => rw [insertPending, List.filter_cons_of_neg hp]
  | cons entry rest ih =>
    unfold insertPending
    split
    · rw [List.filter_cons_of_neg hp]
    · rw [List.filter_cons, List.filter_cons, ih]

/-- Timers that are due at the same time find the same place on both sides. -/
theorem exists_insertPending {ties : Ties α} (ticket ticket' : Ticket) (a a' : α)
    (hdue : ticket'.due = ticket.due) (hdues : ∀ x ∈ ties, x.2.1.due = x.1.1.due)
    (hnew : ∀ x ∈ ties, x.1.1.number < ticket.number)
    (hnew' : ∀ x ∈ ties, x.2.1.number < ticket'.number) :
    ∃ ties' : Ties α, insertPending ticket a (ties.map Prod.fst) = ties'.map Prod.fst ∧
      insertPending ticket' a' (ties.map Prod.snd) = ties'.map Prod.snd ∧
      ties'.Perm (((ticket, a), (ticket', a')) :: ties) := by
  induction ties with
  | nil => exact ⟨[((ticket, a), (ticket', a'))], rfl, rfl, .refl _⟩
  | cons x rest ih =>
    have hsame : ticket'.before x.2.1 = ticket.before x.1.1 := by
      have hxdue := hdues x List.mem_cons_self
      have hx := hnew x List.mem_cons_self
      have hx' := hnew' x List.mem_cons_self
      rw [Bool.eq_iff_iff, Ticket.before_iff, Ticket.before_iff]
      omega
    rw [List.map_cons, List.map_cons, insertPending, insertPending, hsame]
    split
    · exact ⟨((ticket, a), (ticket', a')) :: x :: rest, rfl, rfl, .refl _⟩
    · obtain ⟨ties', hfst, hsnd, hperm⟩ := ih
        (fun x hx => hdues x (List.mem_cons_of_mem _ hx))
        (fun x hx => hnew x (List.mem_cons_of_mem _ hx))
        (fun x hx => hnew' x (List.mem_cons_of_mem _ hx))
      refine ⟨x :: ties', ?_, ?_, (hperm.cons x).trans (.swap _ _ _)⟩
      · rw [hfst, List.map_cons]
      · rw [hsnd, List.map_cons]

/-! ### Excerpts -/

/-- The timeline `t'` holds those timers of `t` that are `own`, paired off by `ties` in the order in
which they fire. No timer is overdue. -/
structure Excerpt (own : α → Bool) (t t' : Timeline α) (ties : Ties α) : Prop where
  ordered : t.Ordered
  ordered' : t'.Ordered
  own_eq : (t.pending.filter fun entry => own entry.2) = ties.map Prod.fst
  pending_eq : t'.pending = ties.map Prod.snd
  due_eq : ∀ x ∈ ties, x.2.1.due = x.1.1.due
  start_eq : t'.start = t.start
  localShift_eq : t'.localShift = t.localShift
  elapsed_le : t'.elapsed ≤ t.elapsed
  upcoming : ∀ entry ∈ t.pending, t.elapsed ≤ entry.1.due

namespace Excerpt

variable {own : α → Bool} {t t' u u' : Timeline α} {ties rest : Ties α}
  {x : (Ticket × α) × (Ticket × α)} {target : Nat} {a : α}

theorem mem_pending (h : Excerpt own t t' ties) (hx : x ∈ ties) :
    x.1 ∈ t.pending ∧ own x.1.2 = true := by
  have hmem : x.1 ∈ ties.map Prod.fst := List.mem_map_of_mem hx
  rw [← h.own_eq] at hmem
  exact List.mem_filter.1 hmem

theorem mem_pending' (h : Excerpt own t t' ties) (hx : x ∈ ties) : x.2 ∈ t'.pending := by
  rw [h.pending_eq]
  exact List.mem_map_of_mem hx

/-- Timers that are scheduled at the same time on both sides. -/
theorem schedule (h : Excerpt own t t' ties) (helapsed : t'.elapsed = t.elapsed) (delay : Nat)
    (a a' : α) (ha : own a = true) :
    ∃ ties', Excerpt own (t.schedule delay a).1 (t'.schedule delay a').1 ties' ∧
      ties'.Perm ((((t.schedule delay a).2, a), ((t'.schedule delay a').2, a')) :: ties) := by
  obtain ⟨ties', hfst, hsnd, hperm⟩ := exists_insertPending
    ⟨t.elapsed + delay, t.nextNumber⟩ ⟨t'.elapsed + delay, t'.nextNumber⟩ a a'
    (congrArg (· + delay) helapsed) h.due_eq
    (fun x hx => h.ordered.numbered _ (h.mem_pending hx).1)
    (fun x hx => h.ordered'.numbered _ (h.mem_pending' hx))
  refine ⟨ties', ?_, hperm⟩
  refine ⟨h.ordered.schedule delay a, h.ordered'.schedule delay a', ?_, ?_, ?_, h.start_eq,
    h.localShift_eq, h.elapsed_le, ?_⟩
  · rw [← hfst, ← h.own_eq]
    exact filter_insertPending (p := fun entry => own entry.2) ha h.ordered.sorted
  · rw [← hsnd, ← h.pending_eq]
    rfl
  · intro x hx
    rcases List.mem_cons.1 (hperm.subset hx) with rfl | hx
    · exact congrArg (· + delay) helapsed
    · exact h.due_eq x hx
  · intro entry hentry
    rcases List.mem_cons.1 ((schedule_perm t delay a).subset hentry) with rfl | hentry
    · exact Nat.le_add_right _ _
    · exact h.upcoming entry hentry

/-- A timer that is not in the excerpt is scheduled. -/
theorem schedule_other (h : Excerpt own t t' ties) (delay : Nat) (ha : ¬ own a = true) :
    Excerpt own (t.schedule delay a).1 t' ties where
  ordered := h.ordered.schedule delay a
  ordered' := h.ordered'
  own_eq := (filter_insertPending_of_not (p := fun entry => own entry.2) ha _).trans h.own_eq
  pending_eq := h.pending_eq
  due_eq := h.due_eq
  start_eq := h.start_eq
  localShift_eq := h.localShift_eq
  elapsed_le := h.elapsed_le
  upcoming := by
    intro entry hentry
    rcases List.mem_cons.1 ((schedule_perm t delay a).subset hentry) with rfl | hentry
    · exact Nat.le_add_right _ _
    · exact h.upcoming entry hentry

/-- Two timers that are paired off are cancelled. -/
theorem cancel (h : Excerpt own t t' ties) (hperm : ties.Perm (x :: rest)) :
    ∃ ties', Excerpt own (t.cancel x.1.1) (t'.cancel x.2.1) ties' ∧ ties'.Perm rest := by
  have hx : x ∈ ties := hperm.symm.subset List.mem_cons_self
  -- a ticket of a pair determines the pair
  have hnodup : (ties.map fun y => y.1.1).Nodup := by
    have hsub : (ties.map Prod.fst).Sublist t.pending := h.own_eq ▸ List.filter_sublist
    have hfst := h.ordered.nodup_tickets.sublist (hsub.map Prod.fst)
    rwa [List.map_map] at hfst
  have hnodup' : (ties.map fun y => y.2.1).Nodup := by
    have hsnd := h.ordered'.nodup_tickets
    rwa [h.pending_eq, List.map_map] at hsnd
  have hsame : ∀ y ∈ ties, (y.2.1 != x.2.1) = (y.1.1 != x.1.1) := by
    intro y hy
    rw [Bool.eq_iff_iff, bne_iff_ne, bne_iff_ne]
    refine not_congr ⟨fun heq => ?_, fun heq => ?_⟩
    · rw [List.inj_on_of_nodup_map hnodup' hy hx heq]
    · rw [List.inj_on_of_nodup_map hnodup hy hx heq]
  refine ⟨ties.filter fun y => y.1.1 != x.1.1, ?_, ?_⟩
  · refine ⟨h.ordered.cancel _, h.ordered'.cancel _, ?_, ?_, ?_, h.start_eq, h.localShift_eq,
      h.elapsed_le, fun entry hentry => h.upcoming entry (List.mem_filter.1 hentry).1⟩
    · rw [Timeline.cancel, List.filter_comm, h.own_eq, List.filter_map]
      rfl
    · rw [Timeline.cancel, h.pending_eq, List.filter_map]
      exact congrArg (List.map Prod.snd) (List.filter_congr hsame)
    · exact fun y hy => h.due_eq y (List.mem_filter.1 hy).1
  · -- no other pair has the ticket
    have hkept := hperm.filter fun y => y.1.1 != x.1.1
    rw [List.filter_cons_of_neg (by simp)] at hkept
    refine hkept.trans (.of_eq (List.filter_eq_self.2 fun y hy => bne_iff_ne.2 fun heq => ?_))
    have hcons := (hperm.map fun y => y.1.1).nodup_iff.1 hnodup
    rw [List.map_cons, List.nodup_cons] at hcons
    exact hcons.1 (List.mem_map.2 ⟨y, hy, heq⟩)

/-- A timer that is not in the excerpt is cancelled. -/
theorem cancel_other (h : Excerpt own t t' ties) {entry : Ticket × α} (hentry : entry ∈ t.pending)
    (hother : ¬ own entry.2 = true) : Excerpt own (t.cancel entry.1) t' ties where
  ordered := h.ordered.cancel _
  ordered' := h.ordered'
  own_eq := by
    rw [Timeline.cancel, List.filter_comm, h.own_eq]
    refine List.filter_eq_self.2 fun kept hkept => bne_iff_ne.2 fun heq => ?_
    rw [← h.own_eq] at hkept
    obtain ⟨hmem, hown⟩ := List.mem_filter.1 hkept
    obtain rfl := List.inj_on_of_nodup_map h.ordered.nodup_tickets hmem hentry heq
    exact hother hown
  pending_eq := h.pending_eq
  due_eq := h.due_eq
  start_eq := h.start_eq
  localShift_eq := h.localShift_eq
  elapsed_le := h.elapsed_le
  upcoming := fun entry hentry => h.upcoming entry (List.mem_filter.1 hentry).1

/-! ### Letting time pass -/

/-- What is left when the first timer has fallen due. -/
theorem popDue?_cases (h : Excerpt own t t' ties) (hpop : t.popDue? target = some (a, u)) :
    ∃ ticket, t.pending = (ticket, a) :: u.pending ∧ ticket.due ≤ target ∧
      u = { t with elapsed := ticket.due, pending := u.pending } := by
  unfold popDue? at hpop
  split at hpop
  · cases hpop
  · next ticket _ rest heq =>
    split at hpop
    · next hdue =>
      cases hpop
      refine ⟨ticket, heq, hdue, ?_⟩
      have hmax : max t.elapsed ticket.due = ticket.due :=
        Nat.max_eq_right (h.upcoming (ticket, a) (heq ▸ List.mem_cons_self))
      rw [hmax]
    · cases hpop

/-- When the first timer has fallen due, no other one is overdue. -/
theorem upcoming_of_pop {ticket : Ticket} (h : t.Ordered)
    (hpending : t.pending = (ticket, a) :: u.pending) (helapsed : u.elapsed = ticket.due) :
    ∀ entry ∈ u.pending, u.elapsed ≤ entry.1.due := by
  intro entry hentry
  have hsorted := h.sorted
  rw [hpending] at hsorted
  have hbefore := (List.pairwise_cons.1 hsorted).1 entry hentry
  rw [Ticket.before_iff] at hbefore
  rw [helapsed]
  dsimp only at hbefore
  omega

/-- If the first timer that is due is in the excerpt, it is the first one there, too. -/
theorem popDue (h : Excerpt own t t' ties) (ha : own a = true)
    (hpop : t.popDue? target = some (a, u)) :
    ∃ ticket ticket' a' u' rest, ties = ((ticket, a), (ticket', a')) :: rest ∧
      t'.popDue? target = some (a', u') ∧ Excerpt own u u' rest ∧ u'.elapsed = u.elapsed ∧
      u.elapsed ≤ target := by
  obtain ⟨ticket, hpending, hdue, hu⟩ := h.popDue?_cases hpop
  have hown := h.own_eq
  rw [hpending, List.filter_cons, if_pos ha] at hown
  -- the timer that falls due is one of its own, so its counterpart is the first one that waits
  cases ties with
  | nil => cases hown
  | cons x rest =>
    obtain ⟨⟨_, _⟩, ⟨ticket', a'⟩⟩ := x
    obtain ⟨hfirst, hrest⟩ := List.cons.inj hown
    cases hfirst
    have hdue' : ticket'.due = ticket.due := h.due_eq _ List.mem_cons_self
    -- the excerpt may be behind in time, but not behind a timer that is still to come
    have hle : t'.elapsed ≤ ticket'.due := by
      have hupcoming := h.upcoming (ticket, a) (hpending ▸ List.mem_cons_self)
      have helapsed := h.elapsed_le
      dsimp only at hupcoming
      omega
    have hpop' : t'.popDue? target =
        some (a', { t' with elapsed := ticket'.due, pending := rest.map Prod.snd }) := by
      rw [popDue?, h.pending_eq]
      rw [List.map_cons]
      dsimp only
      rw [if_pos (hdue' ▸ hdue), Nat.max_eq_right hle]
    have helapsed : u.elapsed = ticket.due := by rw [hu]
    refine ⟨ticket, ticket', a', _, rest, rfl, hpop', ?_, hdue'.trans helapsed.symm,
      helapsed ▸ hdue⟩
    refine ⟨h.ordered.popDue hpop, h.ordered'.popDue hpop', hrest, rfl,
      fun y hy => h.due_eq y (List.mem_cons_of_mem _ hy), ?_, ?_,
      Nat.le_of_eq (hdue'.trans helapsed.symm), upcoming_of_pop h.ordered hpending helapsed⟩
    · rw [hu]
      exact h.start_eq
    · rw [hu]
      exact h.localShift_eq

/-- A timer that falls due and is not in the excerpt. -/
theorem popDue_other (h : Excerpt own t t' ties) (ha : ¬ own a = true)
    (hpop : t.popDue? target = some (a, u)) : Excerpt own u t' ties ∧ u.elapsed ≤ target := by
  obtain ⟨ticket, hpending, hdue, hu⟩ := h.popDue?_cases hpop
  have helapsed : u.elapsed = ticket.due := by rw [hu]
  refine ⟨⟨h.ordered.popDue hpop, h.ordered', ?_, h.pending_eq, h.due_eq, ?_, ?_, ?_,
    upcoming_of_pop h.ordered hpending helapsed⟩, helapsed ▸ hdue⟩
  · have hown := h.own_eq
    rwa [hpending, List.filter_cons, if_neg ha] at hown
  · rw [hu]
    exact h.start_eq
  · rw [hu]
    exact h.localShift_eq
  · rw [helapsed]
    exact Nat.le_trans h.elapsed_le (h.upcoming (ticket, a) (hpending ▸ List.mem_cons_self))

/-- When nothing is due any more, nothing is due in the excerpt, and both reach the same time. -/
theorem reach (h : Excerpt own t t' ties) (hnone : t.popDue? target = none)
    (hle : t.elapsed ≤ target) : t'.popDue? target = none ∧
      Excerpt own (t.reach target) (t'.reach target) ties ∧
      (t'.reach target).elapsed = (t.reach target).elapsed := by
  -- the first timer is not due, and the others come later
  have hlater : ∀ entry ∈ t.pending, target < entry.1.due := by
    unfold popDue? at hnone
    split at hnone
    · next hnil =>
      rw [hnil]
      exact fun _ hentry => nomatch hentry
    · next ticket b rest heq =>
      split at hnone
      · cases hnone
      · next hdue =>
        intro entry hentry
        have hsorted := h.ordered.sorted
        rw [heq] at hsorted hentry
        rcases List.mem_cons.1 hentry with rfl | hmem
        · exact Nat.lt_of_not_le hdue
        · have hbefore := (List.pairwise_cons.1 hsorted).1 entry hmem
          rw [Ticket.before_iff] at hbefore
          dsimp only at hbefore
          omega
  have hnone' : t'.popDue? target = none := by
    rw [popDue?, h.pending_eq]
    cases ties with
    | nil => rfl
    | cons x rest =>
      have hlate : target < x.2.1.due := by
        rw [h.due_eq x List.mem_cons_self]
        exact hlater x.1 (h.mem_pending List.mem_cons_self).1
      exact if_neg (Nat.not_le.2 hlate)
  have helapsed : max t'.elapsed target = target := Nat.max_eq_right (Nat.le_trans h.elapsed_le hle)
  have helapsed' : max t.elapsed target = target := Nat.max_eq_right hle
  refine ⟨hnone', ⟨h.ordered.reach target, h.ordered'.reach target, h.own_eq, h.pending_eq,
    h.due_eq, h.start_eq, h.localShift_eq, ?_, ?_⟩, helapsed.trans helapsed'.symm⟩
  · exact Nat.le_of_eq (helapsed.trans helapsed'.symm)
  · intro entry hentry
    exact Nat.le_trans (Nat.le_of_eq helapsed') (Nat.le_of_lt (hlater entry hentry))

theorem shiftLocal (h : Excerpt own t t' ties) (millis : Int) :
    Excerpt own (t.shiftLocal millis) (t'.shiftLocal millis) ties where
  ordered := h.ordered.shiftLocal millis
  ordered' := h.ordered'.shiftLocal millis
  own_eq := h.own_eq
  pending_eq := h.pending_eq
  due_eq := h.due_eq
  start_eq := h.start_eq
  localShift_eq := congrArg (· + millis) h.localShift_eq
  elapsed_le := h.elapsed_le
  upcoming := h.upcoming

end Excerpt

end Timeline

end SignalGraph
