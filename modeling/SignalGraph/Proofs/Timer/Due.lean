import Mathlib.Data.Multiset.DershowitzManna
import SignalGraph.Proofs.Timer.Passage

/-!
# Timers that are due

`Timeline.due` are the timers that need no more time to pass. Scheduling adds to them only without
a delay (`due_schedule`), and cancelling never does (`due_cancel_le`). The next timer that fires is
one of them, or else the clock moves on (`due_popDue?`). When each of them may be replaced by any
number of lower ones, they come to an end: this is the order of Dershowitz and Manna
(`isDershowitzMannaLT_cons`).
-/

namespace SignalGraph

namespace Timeline

variable {α : Type} {t t' : Timeline α}

/-- The timers that are due by now. -/
def due (t : Timeline α) : Multiset α :=
  ((t.pending : Multiset (Ticket × α)).filter fun entry => entry.1.due ≤ t.elapsed).map Prod.snd

theorem due_schedule (t : Timeline α) (delay : Nat) (a : α) :
    (t.schedule delay a).1.due = if delay = 0 then a ::ₘ t.due else t.due := by
  have hpending : ((t.schedule delay a).1.pending : Multiset (Ticket × α)) =
      ((t.schedule delay a).2, a) ::ₘ t.pending :=
    Multiset.coe_eq_coe.2 (t.schedule_perm delay a)
  unfold due
  rw [hpending]
  split
  · next hdelay =>
    rw [Multiset.filter_cons_of_pos, Multiset.map_cons]
    · rfl
    · show t.elapsed + delay ≤ t.elapsed
      omega
  · next hdelay =>
    rw [Multiset.filter_cons_of_neg]
    · rfl
    · show ¬ t.elapsed + delay ≤ t.elapsed
      omega

theorem due_cancel_le (t : Timeline α) (ticket : Ticket) : (t.cancel ticket).due ≤ t.due := by
  have hpending : ((t.cancel ticket).pending : Multiset (Ticket × α)) ≤ t.pending :=
    Multiset.coe_le.2 List.filter_sublist.subperm
  exact Multiset.map_le_map (Multiset.filter_le_filter _ hpending)

/-- The next timer is due by now, or the clock moves on to it. -/
theorem due_popDue? {target : Nat} {a : α} (h : t.popDue? target = some (a, t')) :
    t'.elapsed = t.elapsed ∧ t.due = a ::ₘ t'.due ∨
      t.elapsed < t'.elapsed ∧ t'.elapsed ≤ target := by
  unfold popDue? at h
  split at h
  · cases h
  · next ticket b rest hpending =>
    split at h
    · next hdue =>
      cases h
      by_cases hnow : ticket.due ≤ t.elapsed
      · have hmax : max t.elapsed ticket.due = t.elapsed := by omega
        refine .inl ⟨hmax, ?_⟩
        unfold due
        dsimp only
        rw [hpending, hmax, ← Multiset.cons_coe, Multiset.filter_cons_of_pos, Multiset.map_cons]
        exact hnow
      · dsimp only
        omega
    · cases h

end Timeline

/-- An element is replaced by some that lie below it, and others may go. -/
theorem isDershowitzMannaLT_cons {α : Type} [Preorder α] {a : α} {s t u : Multiset α}
    (hadded : ∀ b ∈ t, b < a) (hle : u ≤ s + t) : u.IsDershowitzMannaLT (a ::ₘ s) := by
  classical
  refine ⟨u ∩ s, u - s, a ::ₘ (s - u), Multiset.cons_ne_zero, ?_, ?_, fun b hb => ?_⟩
  · rw [Multiset.add_comm, Multiset.sub_add_inter]
  · rw [Multiset.add_cons, Multiset.inter_comm, Multiset.add_comm, Multiset.sub_add_inter]
  · have hnew : u - s ≤ t := Multiset.sub_le_iff_le_add.2 (by rwa [Multiset.add_comm])
    exact ⟨a, Multiset.mem_cons_self a _, hadded b (Multiset.mem_of_le hnew hb)⟩

end SignalGraph
