import SignalGraph.Proofs.Timer.Timeline

/-!
# Time that passes

`Owner.Passes` says what letting time pass comes to: the timers that fire, each at its virtual time,
and the state at the end. It is what `Owner.advanceTo` does if its limit allows
(`Owner.advanceTo_eq_some_iff`). Wherever the time is split, the parts together come to the whole
(`Owner.passes_split_iff`): what is due in the first part is due in the whole as well, and the rest
of it does not depend on how far the clock has moved since the last fire.
-/

namespace SignalGraph

namespace Timeline

variable {α : Type} {t t' : Timeline α} {target target' : Nat} {a : α}

/-- What is due by some time is due by every later time. -/
theorem popDue?_mono (hle : target ≤ target') (h : t.popDue? target = some (a, t')) :
    t.popDue? target' = some (a, t') := by
  unfold popDue? at h ⊢
  split at h
  · cases h
  · next ticket b rest hpending =>
    split at h
    · next hdue => rwa [if_pos (Nat.le_trans hdue hle)]
    · cases h

/-- A timer that falls due takes the clock forward, but not past the target. -/
theorem elapsed_popDue? (h : t.popDue? target = some (a, t')) :
    t.elapsed ≤ t'.elapsed ∧ t'.elapsed ≤ max t.elapsed target := by
  unfold popDue? at h
  split at h
  · cases h
  · split at h
    · next hdue =>
      cases h
      dsimp only
      omega
    · cases h

/-- After a time by which nothing is due, the next timer fires as if the clock had not been moved
there. -/
theorem popDue?_reach (hnone : t.popDue? target = none) :
    (t.reach target).popDue? target' = t.popDue? target' := by
  unfold popDue? at hnone ⊢
  rw [reach]
  dsimp only
  cases hpending : t.pending with
  | nil => rfl
  | cons entry rest =>
    rw [hpending] at hnone
    dsimp only at hnone ⊢
    split at hnone
    · cases hnone
    · next hlater =>
      -- the timer is due after the target, so the clock moves on to it either way
      have hmax : max (max t.elapsed target) entry.1.due = max t.elapsed entry.1.due := by omega
      rw [hmax]

theorem reach_reach (t : Timeline α) (hle : target ≤ target') :
    (t.reach target).reach target' = t.reach target' := by
  have hmax : max (max t.elapsed target) target' = max t.elapsed target' := by omega
  unfold reach
  dsimp only
  rw [hmax]

end Timeline

namespace Owner

variable {σ α : Type} {o : Owner σ α} {target target' limit fired n : Nat} {s s' s₁ : σ}
  {fires first second : List (Nat × α)}

/-- Time passes until `target`: these timers fire, each at its virtual time, and this is the state
at the end. -/
inductive Passes (o : Owner σ α) (target : Nat) : σ → List (Nat × α) → σ → Prop
  /-- Nothing is due any more. -/
  | reach {s : σ} (hnone : (o.timeline s).popDue? target = none) :
    Passes o target s [] (o.withTimeline s ((o.timeline s).reach target))
  /-- A timer fires, and time goes on to pass. -/
  | fire {s s' s'' : σ} {a : α} {t : Timeline α} {fires : List (Nat × α)}
    (hpop : (o.timeline s).popDue? target = some (a, t))
    (hfire : o.fire (o.withTimeline s t) a = some s') (hrest : Passes o target s' fires s'') :
    Passes o target s ((t.elapsed, a) :: fires) s''

/-- A limit that is not exceeded makes no difference. -/
theorem advanceTo_eq_some_iff : o.advanceTo target limit fired s = some (n, s') ↔
    ∃ fires, o.Passes target s fires s' ∧ fires.length ≤ limit ∧ n = fired + fires.length := by
  constructor
  · intro h
    induction limit using Nat.strongRecOn generalizing fired s with
    | ind limit ih =>
      rcases advanceTo_cases h with ⟨hnone, rfl⟩ | ⟨rest, a, t, s'', rfl, hpop, hfire, hrest⟩
      · rw [advanceTo_of_none hnone] at h
        cases h
        exact ⟨[], .reach hnone, Nat.zero_le _, rfl⟩
      · obtain ⟨fires, hpasses, hlength, rfl⟩ := ih rest (Nat.lt_succ_self rest) hrest
        refine ⟨_, .fire hpop hfire hpasses, Nat.succ_le_succ hlength, ?_⟩
        rw [List.length_cons]
        omega
  · rintro ⟨fires, hpasses, hlength, rfl⟩
    induction hpasses generalizing limit fired with
    | reach hnone => exact advanceTo_of_none hnone limit fired
    | @fire s s' s'' a t fires hpop hfire _ ih =>
      rw [List.length_cons] at hlength ⊢
      obtain ⟨rest, rfl⟩ : ∃ rest, limit = rest + 1 := ⟨limit - 1, by omega⟩
      rw [advanceTo_of_some hpop hfire, ih (by omega)]
      congr 2
      omega

/-- An owner whose timeline is a place of its own and whose fires do not move the clock. -/
structure Steady (o : Owner σ α) : Prop where
  timeline_withTimeline : ∀ s t, o.timeline (o.withTimeline s t) = t
  withTimeline_withTimeline : ∀ s t t', o.withTimeline (o.withTimeline s t) t' = o.withTimeline s t'
  elapsed_fire : ∀ {s a s'}, o.fire s a = some s' → (o.timeline s').elapsed = (o.timeline s).elapsed

namespace Passes

/-- Time passes as far as it is told to. -/
theorem elapsed_eq (ho : o.Steady) (h : o.Passes target s fires s') :
    (o.timeline s').elapsed = max (o.timeline s).elapsed target := by
  induction h with
  | reach hnone =>
    rw [ho.timeline_withTimeline]
    rfl
  | fire hpop hfire _ ih =>
    obtain ⟨hfrom, hto⟩ := Timeline.elapsed_popDue? hpop
    rw [ih, ho.elapsed_fire hfire, ho.timeline_withTimeline]
    omega

/-- At the end, nothing is due any more. -/
theorem popDue?_eq_none (ho : o.Steady) (h : o.Passes target s fires s') :
    (o.timeline s').popDue? target = none := by
  induction h with
  | reach hnone =>
    rw [ho.timeline_withTimeline, Timeline.popDue?_reach hnone]
    exact hnone
  | fire _ _ _ ih => exact ih

/-- Where nothing is due, the clock may be moved forward first. -/
theorem reached_iff (ho : o.Steady) (hnone : (o.timeline s).popDue? target = none)
    (hle : target ≤ target') :
    o.Passes target' (o.withTimeline s ((o.timeline s).reach target)) fires s' ↔
      o.Passes target' s fires s' := by
  -- nothing is due up to `target`, so reaching it first changes neither the next timer nor the end
  have hpop : (o.timeline (o.withTimeline s ((o.timeline s).reach target))).popDue? target' =
      (o.timeline s).popDue? target' := by
    rw [ho.timeline_withTimeline, Timeline.popDue?_reach hnone]
  have hend : o.withTimeline (o.withTimeline s ((o.timeline s).reach target))
      ((o.timeline (o.withTimeline s ((o.timeline s).reach target))).reach target') =
      o.withTimeline s ((o.timeline s).reach target') := by
    rw [ho.withTimeline_withTimeline, ho.timeline_withTimeline, Timeline.reach_reach _ hle]
  constructor
  · intro h
    cases h with
    | reach hnone' =>
      rw [hend]
      exact .reach (hpop ▸ hnone')
    | fire hpop' hfire hrest =>
      rw [ho.withTimeline_withTimeline] at hfire
      exact .fire (hpop ▸ hpop') hfire hrest
  · intro h
    cases h with
    | reach hnone' =>
      rw [← hend]
      exact .reach (hpop.trans hnone')
    | fire hpop' hfire hrest =>
      rw [← ho.withTimeline_withTimeline s ((o.timeline s).reach target)] at hfire
      exact .fire (hpop.trans hpop') hfire hrest

theorem append (ho : o.Steady) (hle : target ≤ target') (h : o.Passes target s first s₁)
    (h' : o.Passes target' s₁ second s') : o.Passes target' s (first ++ second) s' := by
  induction h with
  | reach hnone => exact (reached_iff ho hnone hle).1 h'
  | fire hpop hfire _ ih => exact .fire (Timeline.popDue?_mono hle hpop) hfire (ih h')

theorem split (ho : o.Steady) (hle : target ≤ target') (h : o.Passes target' s fires s') :
    ∃ first s₁ second, o.Passes target s first s₁ ∧ o.Passes target' s₁ second s' ∧
      fires = first ++ second := by
  induction h with
  | @reach s hnone =>
    have hearlier : (o.timeline s).popDue? target = none := by
      by_contra hsome
      obtain ⟨⟨a, t⟩, hpop⟩ := Option.ne_none_iff_exists'.1 hsome
      cases hnone.symm.trans (Timeline.popDue?_mono hle hpop)
    exact ⟨[], _, [], .reach hearlier, (reached_iff ho hearlier hle).2 (.reach hnone), rfl⟩
  | @fire s s' s'' a t fires hpop hfire hrest ih =>
    cases hearlier : (o.timeline s).popDue? target with
    | none =>
      -- the split comes before this fire
      have hlater := (reached_iff ho hearlier hle).2 (.fire hpop hfire hrest)
      exact ⟨[], _, _, .reach hearlier, hlater, rfl⟩
    | some popped =>
      cases hpop.symm.trans (Timeline.popDue?_mono hle hearlier)
      obtain ⟨first, s₁, second, hfirst, hsecond, rfl⟩ := ih
      exact ⟨_, s₁, second, .fire hearlier hfire hfirst, hsecond, rfl⟩

end Passes

/-- Letting time pass until `target'` is letting it pass until `target` first and then on. -/
theorem passes_split_iff (ho : o.Steady) (hle : target ≤ target') : o.Passes target' s fires s' ↔
    ∃ first s₁ second, o.Passes target s first s₁ ∧ o.Passes target' s₁ second s' ∧
      fires = first ++ second := by
  constructor
  · exact Passes.split ho hle
  · rintro ⟨first, s₁, second, hfirst, hsecond, rfl⟩
    exact hfirst.append ho hle hsecond

end Owner

end SignalGraph
