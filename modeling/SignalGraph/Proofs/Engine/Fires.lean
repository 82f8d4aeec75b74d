import SignalGraph.Host.Memory
import SignalGraph.Proofs.Engine.Ledger

/-!
# Late and repeated fires

A timer service may deliver any fire at any time, again and again, and even fires that nobody armed.
A fire is in force while the node it addresses holds a timer under its key and token, in the load it
belongs to; no other fire changes anything. Tokens are given out once (`World.ledger_stamped`), so a
fire that is out of force stays so (`Engine.Reachable.not_inForce_run`). Hence a token is acted upon
once, in any order of loads, stops, changes and fires (`Engine.Fresh.fires_safe`).
-/

namespace SignalGraph

/-- The command takes the timer under a key away: it cancels it or arms another one. -/
def Command.Retires (key : TimerKey) (command : Command) : Prop :=
  command = .cancel key ∨ ∃ delay, command = .arm key delay

/-! ### Tokens -/

/-- The armings have different tokens, all of which have been given out. -/
structure World.Issued {H : Type} (w : World H) (l : List Arming) : Prop where
  nodup : (l.map fun a => a.fire.token).Nodup
  lt : ∀ a ∈ l, a.fire.token < w.nextToken

/-- The armings are among those of an earlier moment, or are newer. -/
structure World.Stamped {H : Type} (nextToken : Nat) (before : List Arming) (w : World H)
    (l : List Arming) : Prop extends w.Issued l where
  le : nextToken ≤ w.nextToken
  old : ∀ a ∈ l, a ∈ before ∨ nextToken ≤ a.fire.token

namespace World

variable {H : Type}

theorem Issued.stamped {w : World H} {l : List Arming} (h : w.Issued l) :
    Stamped w.nextToken l w l :=
  ⟨h, Nat.le_refl _, fun _ ha => .inl ha⟩

/-- In which order the armings are listed makes no difference. -/
theorem Issued.perm {w : World H} {l l' : List Arming} (h : w.Issued l) (hl : l.Perm l') :
    w.Issued l' := by
  have htokens := hl.map fun a => a.fire.token
  constructor
  · exact htokens.nodup_iff.1 h.nodup
  · intro a ha
    exact h.lt a (hl.symm.subset ha)

theorem Issued.of_cons {w : World H} {a : Arming} {l : List Arming} (h : w.Issued (a :: l)) :
    w.Issued l := by
  obtain ⟨-, hnodup⟩ := List.nodup_cons.1 h.nodup
  refine ⟨hnodup, ?_⟩
  intro b hb
  exact h.lt b (List.mem_cons_of_mem a hb)

/-- Issuing more tokens makes no difference to those in use. -/
theorem Issued.mono {w w' : World H} {l : List Arming} (h : w.Issued l)
    (hle : w.nextToken ≤ w'.nextToken) : w'.Issued l := by
  refine ⟨h.nodup, ?_⟩
  intro a ha
  have hlt := h.lt a ha
  omega

/-- A fresh token can be given to a new arming. -/
theorem Issued.cons {w w' : World H} {a : Arming} {l : List Arming} (h : w.Issued l)
    (htoken : a.fire.token = w.nextToken) (hnext : w'.nextToken = w.nextToken + 1) :
    w'.Issued (a :: l) := by
  constructor
  · refine List.nodup_cons.2 ⟨?_, h.nodup⟩
    intro hmem
    obtain ⟨b, hb, heq⟩ := List.mem_map.1 hmem
    have hlt := h.lt b hb
    dsimp only at heq
    omega
  · intro b hb
    rcases List.mem_cons.1 hb with rfl | hb
    · omega
    · have hlt := h.lt b hb
      omega

/-- In a list of armings with different tokens, a token has one arming. -/
theorem Issued.eq_of_token_eq {w : World H} {l : List Arming} (h : w.Issued l) {a b : Arming}
    (ha : a ∈ l) (hb : b ∈ l) (htoken : a.fire.token = b.fire.token) : a = b :=
  List.inj_on_of_nodup_map h.nodup ha hb htoken

@[simp] theorem nextToken_withTimeline (w : World H) (t : Timeline Fire) :
    (w.withTimeline t).nextToken = w.nextToken := by
  unfold withTimeline
  split <;> rfl

@[simp] theorem nextToken_cancelTimer (w : World H) (timer : ArmedTimer) :
    (w.cancelTimer timer).nextToken = w.nextToken := by
  unfold cancelTimer
  split
  · exact nextToken_withTimeline _ _
  · rfl

@[simp] theorem nextToken_schedule (w : World H) (delay : Nat) (fire : Fire) :
    (w.schedule delay fire).2.nextToken = w.nextToken := by
  unfold schedule
  split
  · rfl
  · exact nextToken_withTimeline _ _

theorem Stamped.of_cons {nextToken : Nat} {before : List Arming} {w : World H} {a : Arming}
    {l : List Arming} (h : w.Stamped nextToken before (a :: l)) : w.Stamped nextToken before l := by
  refine ⟨h.toIssued.of_cons, h.le, ?_⟩
  intro b hb
  exact h.old b (List.mem_cons_of_mem a hb)

/-- Whatever a node does, its timers are those from before or have tokens issued since. -/
theorem ledger_stamped (H : Type) (nextToken : Nat) (before : List Arming) :
    Ledger (Stamped (H := H) nextToken before) where
  perm hl h := by
    refine ⟨h.toIssued.perm hl, h.le, ?_⟩
    intro a ha
    exact h.old a (hl.symm.subset ha)
  quiet {w w' l} hw h := by
    have hnext : w'.nextToken = w.nextToken := hw.nextToken_eq
    refine ⟨h.toIssued.mono (by omega), ?_, h.old⟩
    have hle := h.le
    omega
  cancel {w l} _ timer h := by
    have hnext : (w.cancelTimer timer).nextToken = w.nextToken := nextToken_cancelTimer w timer
    have hrest := h.of_cons
    refine ⟨hrest.toIssued.mono (by omega), ?_, hrest.old⟩
    have hle := h.le
    omega
  schedule {w l} fire delay hfire h := by
    -- the new timer has the next token, which none of the others has
    have hnext : ({ w with nextToken := w.nextToken + 1 }.schedule delay fire).2.nextToken =
        w.nextToken + 1 := nextToken_schedule _ _ _
    have hle := h.le
    refine ⟨h.toIssued.cons hfire hnext, by omega, ?_⟩
    intro a ha
    rcases List.mem_cons.1 ha with rfl | ha
    · right
      dsimp only
      omega
    · exact h.old a ha

/-- The token has been given out, and no arming has it. -/
structure Without (token : Nat) (w : World H) (l : List Arming) : Prop where
  lt : token < w.nextToken
  ne : ∀ a ∈ l, a.fire.token ≠ token

/-- A token that has been issued and is not in use never comes into use again. -/
theorem ledger_without (H : Type) (token : Nat) : Ledger (Without (H := H) token) where
  perm hl h := by
    refine ⟨h.lt, ?_⟩
    intro a ha
    exact h.ne a (hl.symm.subset ha)
  quiet {w w' l} hw h := by
    have hnext : w'.nextToken = w.nextToken := hw.nextToken_eq
    have hlt := h.lt
    exact ⟨by omega, h.ne⟩
  cancel {w l} _ timer h := by
    have hnext : (w.cancelTimer timer).nextToken = w.nextToken := nextToken_cancelTimer w timer
    have hlt := h.lt
    refine ⟨by omega, ?_⟩
    intro a ha
    exact h.ne a (List.mem_cons_of_mem _ ha)
  schedule {w l} fire delay hfire h := by
    have hnext : ({ w with nextToken := w.nextToken + 1 }.schedule delay fire).2.nextToken =
        w.nextToken + 1 := nextToken_schedule _ _ _
    have hlt := h.lt
    refine ⟨by omega, ?_⟩
    intro a ha
    rcases List.mem_cons.1 ha with rfl | ha
    · dsimp only
      omega
    · exact h.ne a ha

/-! ### Cancelling and arming again -/

section Retire

variable {generation : Nat} {graph node : String} {timers timers' : ArmedTimers} {w w' : World H}
  {t : ArmedTimer}

/-- Once a node does not hold a timer any more, it does not hold its token. -/
theorem Stamped.without
    (h : w'.Stamped w.nextToken (timers.map (ArmedTimer.arming generation graph node))
      (timers'.map (ArmedTimer.arming generation graph node)))
    (hissued : w.Issued (timers.map (ArmedTimer.arming generation graph node))) (ht : t ∈ timers)
    (hgone : t ∉ timers') :
    w'.Without t.token (timers'.map (ArmedTimer.arming generation graph node)) := by
  have hmem := List.mem_map_of_mem (f := ArmedTimer.arming generation graph node) ht
  have hlt : t.token < w.nextToken := hissued.lt _ hmem
  have hle := h.le
  refine ⟨by omega, ?_⟩
  intro a ha htoken
  rcases h.old a ha with hold | hnew
  · obtain rfl := hissued.eq_of_token_eq hold hmem htoken
    rw [List.mem_map_of_injective (ArmedTimer.arming_injective _ _ _)] at ha
    exact hgone ha
  · omega

variable [Host H] {ctx : LoadContext}

/-- When a command of a node has cancelled a timer or armed another one under its key, the node does
not hold the token of the timer any more, whatever the commands after it do. -/
theorem token_ne_of_retires (hkeys : timers.UniqueKeys)
    (hissued : w.Issued (timers.map (ArmedTimer.arming ctx.generation graph node)))
    (ht : t ∈ timers) {commands : List Command}
    (hretires : ∃ command ∈ commands, command.Retires t.key) :
    ∀ t' ∈ (commands.foldl (carryOut ctx graph node) (timers, w)).1, t'.token ≠ t.token := by
  -- where the token is missing, the commands do not bring it back
  have hwithout : ∀ {timers : ArmedTimers} {w : World H} {commands : List Command},
      w.Without t.token (timers.map (ArmedTimer.arming ctx.generation graph node)) →
      ∀ t' ∈ (commands.foldl (carryOut ctx graph node) (timers, w)).1, t'.token ≠ t.token := by
    intro timers w commands h t' ht'
    rw [← List.append_nil (timers.map _)] at h
    have hend := (ledger_without H t.token).commands commands h
    exact hend.ne _ (List.mem_append_left _ (List.mem_map_of_mem ht'))
  induction commands generalizing timers w with
  | nil =>
    obtain ⟨command, hmem, -⟩ := hretires
    cases hmem
  | cons command commands ih =>
    have hstart := hissued.stamped
    rw [← List.append_nil (timers.map _)] at hstart
    rw [List.foldl_cons]
    -- the timer goes at this command, or it stays until a later one takes it away
    by_cases hhead : command.Retires t.key
    · have hdisarmed := (ledger_stamped H _ _).disarm t.key hstart
      rw [List.append_nil, List.append_nil] at hdisarmed
      have hgone : t ∉ (w.disarm timers t.key).1 := by
        rw [disarm_fst]
        exact fun hmem => hkeys.key_notMem_remove t.key (List.mem_map_of_mem hmem)
      have hcancelled := hdisarmed.without hissued ht hgone
      rcases hhead with rfl | ⟨delay, rfl⟩
      · exact hwithout hcancelled
      · rw [← List.append_nil (List.map _ _)] at hcancelled
        have harmed := (ledger_without H t.token).arm_disarmed t.key delay hcancelled
        rw [List.append_nil] at harmed
        exact hwithout harmed
    · have hafter := (ledger_stamped H _ _).carryOut command hstart
      rw [List.append_nil, List.append_nil] at hafter
      by_cases hmem : t ∈ (carryOut ctx graph node (timers, w) command).1
      · refine ih ((changes_carryOut w timers ctx graph node command).uniqueKeys hkeys)
          hafter.toIssued hmem ?_
        obtain ⟨later, hlater, hretires⟩ := hretires
        rcases List.mem_cons.1 hlater with rfl | hlater
        · exact (hhead hretires).elim
        · exact ⟨later, hlater, hretires⟩
      · exact hwithout (hafter.without hissued ht hmem)

/-- When another timer is armed under the key of a timer, whichever command has armed it, the node
does not hold the token of the timer any more. -/
theorem token_ne_of_replaced (hkeys : timers.UniqueKeys)
    (hissued : w.Issued (timers.map (ArmedTimer.arming ctx.generation graph node)))
    (ht : t ∈ timers) {commands : List Command} {t' : ArmedTimer}
    (ht' : t' ∈ (commands.foldl (carryOut ctx graph node) (timers, w)).1) (hkey : t'.key = t.key)
    (hother : t'.token ≠ t.token) :
    ∀ t'' ∈ (commands.foldl (carryOut ctx graph node) (timers, w)).1, t''.token ≠ t.token := by
  have hstart := hissued.stamped
  rw [← List.append_nil (timers.map _)] at hstart
  have hafter := (ledger_stamped H _ _).commands commands hstart
  rw [List.append_nil, List.append_nil] at hafter
  have hunique := (changes_commands w timers ctx graph node commands).uniqueKeys hkeys
  -- the key has one timer only
  have hgone : t ∉ (commands.foldl (carryOut ctx graph node) (timers, w)).1 := by
    intro hmem
    obtain rfl := List.inj_on_of_nodup_map hunique ht' hmem hkey
    exact hother rfl
  intro t'' ht''
  exact (hafter.without hissued ht hgone).ne _ (List.mem_map_of_mem ht'')

end Retire

end World

namespace Engine

variable {H : Type} {e : Engine H}

/-! ### Fires in force -/

/-- The fire belongs to the current load, and the node that it addresses holds a timer under its key
and its token. -/
def InForce (e : Engine H) (fire : Fire) : Prop :=
  fire.generation = e.generation ∧ ∃ r ∈ e.runners, r.graph.id = fire.graph ∧
    ∃ n ∈ r.graph.nodes, n.id = fire.node ∧ ∃ t ∈ n.timers, t.key = fire.key ∧ t.token = fire.token

/-- A fire is in force exactly if it belongs to an arming of the engine. -/
theorem inForce_iff {fire : Fire} : e.InForce fire ↔ ∃ a ∈ e.armings, a.fire = fire := by
  constructor
  · rintro ⟨hgeneration, r, hr, hgraph, n, hn, hnode, t, ht, hkey, htoken⟩
    refine ⟨t.arming e.generation r.graph.id n.id, ?_, ?_⟩
    · refine List.mem_flatMap.2 ⟨r, Array.mem_toList_iff.2 hr, ?_⟩
      exact List.mem_flatMap.2 ⟨n, Array.mem_toList_iff.2 hn, List.mem_map.2 ⟨t, ht, rfl⟩⟩
    · rw [ArmedTimer.arming, hgraph, hnode, hkey, htoken, ← hgeneration]
  · rintro ⟨a, ha, rfl⟩
    obtain ⟨i, r, j, n, t, hr, hn, ht, rfl⟩ := mem_armings ha
    exact ⟨rfl, r, Array.mem_of_getElem? hr, rfl, n, Array.mem_of_getElem? hn, rfl, t, ht, rfl, rfl⟩

instance (fire : Fire) : Decidable (e.InForce fire) :=
  decidable_of_iff _ inForce_iff.symm

/-! ### One action -/

variable [Host H] {c : Configuration}

/-- A fire that is not in force changes nothing. -/
theorem handle_eq_self (hruns : Runs c e) {fire : Fire} (h : ¬ e.InForce fire) :
    e.handle (.timer fire) = e := by
  rcases handle_timer hruns fire with ⟨hself, -⟩ | ⟨ticket, others, hperm, -⟩
  · exact hself
  · exact (h (inForce_iff.2 ⟨_, hperm.symm.subset List.mem_cons_self, rfl⟩)).elim

/-- Handling an event arms timers with fresh tokens only. -/
theorem stamped_handle (hruns : Runs c e) (h : e.world.Issued e.armings) (event : Event) :
    (e.handle event).world.Stamped e.world.nextToken e.armings (e.handle event).armings := by
  cases event with
  | change change => exact (World.ledger_stamped H _ _).closed.handle_change change h.stamped
  | timer fire =>
    rcases handle_timer hruns fire with ⟨hself, -⟩ | ⟨ticket, others, hperm, hkeeps⟩
    · rw [hself]
      exact h.stamped
    · refine hkeeps (World.ledger_stamped H _ _) ?_
      have hall := (World.ledger_stamped H _ _).perm hperm h.stamped
      exact hall.of_cons

/-- A fire that has been handled is not in force any more. -/
theorem not_inForce_handle (hruns : Runs c e) (h : e.world.Issued e.armings) (fire : Fire) :
    ¬ (e.handle (.timer fire)).InForce fire := by
  rw [inForce_iff]
  rintro ⟨a, ha, hfire⟩
  rcases handle_timer hruns fire with ⟨hself, hnone⟩ | ⟨ticket, others, hperm, hkeeps⟩
  · rw [hself] at ha
    exact hnone a ha hfire
  · -- the armings that are left are others, with other tokens, or newer ones
    have hall := h.perm hperm
    have hafter := hkeeps (World.ledger_stamped H _ others) hall.of_cons.stamped
    have hlt : fire.token < e.world.nextToken := hall.lt _ List.mem_cons_self
    rcases hafter.old a ha with hold | hnew
    · obtain ⟨hnotMem, -⟩ := List.nodup_cons.1 hall.nodup
      refine hnotMem (List.mem_map.2 ⟨a, hold, ?_⟩)
      rw [hfire]
    · rw [hfire] at hnew
      omega

/-- An action leaves the armings from before, or new ones with new tokens. -/
theorem stamped_act (hruns : Runs c e) (h : e.world.Issued e.armings) (a : Action H) :
    (e.act a).world.Stamped e.world.nextToken e.armings (e.act a).armings := by
  cases a with
  | install c => exact ledger_install (World.ledger_stamped H _ _) c h.stamped
  | stop =>
    have hteardown := (World.ledger_stamped H _ _).teardown (e := e) h.stamped
    exact ⟨⟨hteardown.nodup, hteardown.lt⟩, hteardown.le, hteardown.old⟩
  | post event => exact ⟨⟨h.nodup, h.lt⟩, Nat.le_refl _, fun _ ha => .inl ha⟩
  | outside => exact ⟨⟨h.nodup, h.lt⟩, Nat.le_refl _, fun _ ha => .inl ha⟩
  | turn =>
    show (e.turn?.getD e).world.Stamped e.world.nextToken e.armings (e.turn?.getD e).armings
    cases hturn : e.turn? with
    | none => exact h.stamped
    | some e' =>
      obtain ⟨event, rest, -, rfl⟩ := turn?_eq_some hturn
      exact stamped_handle (e := e.withQueue rest) hruns ⟨h.nodup, h.lt⟩ event

/-! ### Runs -/

/-- In every reachable state the tokens in use have been issued, each to one timer. -/
theorem Reachable.issued (h : Reachable e) : e.world.Issued e.armings := by
  induction h with
  | @fresh e h =>
    have hnone : e.armings = [] := by
      rw [armings, h.runners]
      rfl
    rw [hnone]
    exact ⟨List.nodup_nil, fun _ ha => nomatch ha⟩
  | act a hreachable ih =>
    obtain ⟨c, hruns⟩ := hreachable.exists_runs
    exact (stamped_act hruns ih a).toIssued

/-- A run leaves armings from before, or new ones with new tokens. -/
theorem Reachable.stamped_run (h : Reachable e) (as : List (Action H)) :
    (e.run as).world.Stamped e.world.nextToken e.armings (e.run as).armings := by
  induction as generalizing e with
  | nil => exact h.issued.stamped
  | cons a as ih =>
    obtain ⟨c, hruns⟩ := h.exists_runs
    have hfirst := stamped_act hruns h.issued a
    have hrest := ih (h.act a)
    have hle := hfirst.le
    constructor
    case toIssued => exact hrest.toIssued
    case le => exact Nat.le_trans hle hrest.le
    case old =>
      intro b hb
      -- what was there after the first action was there before it, or is newer
      rcases hrest.old b hb with hold | hnew
      · exact hfirst.old b hold
      · right
        omega

/-- A fire that is out of force once its token has been given out stays out of force. -/
theorem Reachable.not_inForce_run (h : Reachable e) {fire : Fire}
    (hissued : fire.token < e.world.nextToken) (hgone : ¬ e.InForce fire) (as : List (Action H)) :
    ¬ (e.run as).InForce fire := by
  rw [inForce_iff]
  rintro ⟨a, ha, rfl⟩
  -- the arming was in force at the start, or its token is fresh
  rcases (h.stamped_run as).old a ha with hold | hnew
  · exact hgone (inForce_iff.2 ⟨a, hold, rfl⟩)
  · omega

/-- The token of a fire in force has been issued. -/
theorem Reachable.token_lt (h : Reachable e) {fire : Fire} (hforce : e.InForce fire) :
    fire.token < e.world.nextToken := by
  obtain ⟨a, ha, rfl⟩ := inForce_iff.1 hforce
  exact h.issued.lt a ha

/-- The fire that an action acts upon. Only the turn that handles such a fire evaluates a node on
the trigger of a timer. -/
def firedBy (e : Engine H) : Action H → Option Fire
  | .turn =>
    match e.world.queue with
    | .timer fire :: _ => if e.InForce fire then some fire else none
    | _ => none
  | _ => none

/-- The fires that a run acts upon, in order. -/
def fired (e : Engine H) : List (Action H) → List Fire
  | [] => []
  | a :: as => (e.firedBy a).toList ++ (e.act a).fired as

omit [Host H] in
/-- A fire is acted upon in the turn that handles it, if it is in force. -/
theorem inForce_of_firedBy {a : Action H} {fire : Fire} (h : e.firedBy a = some fire) :
    ∃ rest, a = .turn ∧ e.world.queue = .timer fire :: rest ∧ e.InForce fire := by
  unfold firedBy at h
  split at h
  · split at h
    · next f rest hqueue =>
      rw [Option.ite_none_right_eq_some] at h
      obtain ⟨hforce, heq⟩ := h
      cases heq
      exact ⟨rest, rfl, hqueue, hforce⟩
    · cases h
  · cases h

/-- An action that acts upon a fire puts it out of force. -/
theorem Reachable.not_inForce_of_firedBy (h : Reachable e) {a : Action H} {fire : Fire}
    (hfired : e.firedBy a = some fire) : ¬ (e.act a).InForce fire := by
  obtain ⟨c, hruns⟩ := h.exists_runs
  obtain ⟨rest, rfl, hqueue, -⟩ := inForce_of_firedBy hfired
  have hturn : e.turn? = some ((e.withQueue rest).handle (.timer fire)) := by
    rw [turn?, hqueue]
    rfl
  rw [act_turn hturn]
  exact not_inForce_handle (e := e.withQueue rest) hruns ⟨h.issued.nodup, h.issued.lt⟩ fire

/-- A run acts upon a token once, and upon one that has been given out before only if it is still in
force. -/
theorem Reachable.fired_once (h : Reachable e) (as : List (Action H)) :
    ((e.fired as).map Fire.token).Nodup ∧
      ∀ fire ∈ e.fired as, fire.token < e.world.nextToken → e.InForce fire := by
  induction as generalizing e with
  | nil => exact ⟨List.nodup_nil, fun _ hfire => nomatch hfire⟩
  | cons a as ih =>
    obtain ⟨hnodup, hearlier⟩ := ih (h.act a)
    have hle : e.world.nextToken ≤ (e.act a).world.nextToken := (h.stamped_run [a]).le
    -- what is in force after the action was so before, unless its token is new
    have hback : ∀ fire, fire.token < e.world.nextToken → (e.act a).InForce fire →
        e.InForce fire := by
      intro fire hlt hforce
      by_contra hgone
      exact h.not_inForce_run hlt hgone [a] hforce
    unfold fired
    cases hfired : e.firedBy a with
    | none =>
      refine ⟨hnodup, ?_⟩
      intro fire hfire hlt
      exact hback fire hlt (hearlier fire hfire (by omega))
    | some first =>
      obtain ⟨-, -, -, hforce⟩ := inForce_of_firedBy hfired
      have hlt := h.token_lt hforce
      constructor
      · refine List.nodup_cons.2 ⟨?_, hnodup⟩
        intro hmem
        -- a later fire with this token would be in force now, hence be this very fire
        obtain ⟨fire, hfire, htoken⟩ := List.mem_map.1 hmem
        have hlater := hearlier fire hfire (by omega)
        obtain ⟨b, hb, rfl⟩ := inForce_iff.1 hforce
        obtain ⟨b', hb', rfl⟩ := inForce_iff.1 (hback fire (by omega) hlater)
        rw [h.issued.eq_of_token_eq hb' hb htoken] at hlater
        exact h.not_inForce_of_firedBy hfired hlater
      · intro fire hfire hlt
        rcases List.mem_cons.1 hfire with rfl | hfire
        · exact hforce
        · exact hback fire hlt (hearlier fire hfire (by omega))

/-! ### After a stop -/

/-- No graph is running. -/
structure Idle (e : Engine H) : Prop where
  runners : e.runners = #[]
  subscribers : e.subscribers = []
  registered : e.world.registered = []

theorem idle_stop (e : Engine H) : e.stop.Idle :=
  ⟨rfl, rfl, rfl⟩

/-- An engine without graphs does nothing in a turn. -/
theorem Idle.handle (h : e.Idle) (event : Event) : e.handle event = e := by
  cases event with
  | change c =>
    unfold Engine.handle
    rw [h.subscribers]
    rfl
  | timer fire =>
    unfold Engine.handle
    dsimp only
    split
    · rfl
    · rw [h.runners, Array.findIdx?_empty]

theorem Idle.run (h : e.Idle) {as : List (Action H)} (has : ∀ a ∈ as, ∀ c, a ≠ .install c) :
    (e.run as).Idle := by
  induction as generalizing e with
  | nil => exact h
  | cons a as ih =>
    refine ih ?_ fun b hb => has b (List.mem_cons_of_mem _ hb)
    cases a with
    | install c => exact (has _ List.mem_cons_self c rfl).elim
    | stop => exact idle_stop e
    | post | outside => exact ⟨h.runners, h.subscribers, h.registered⟩
    | turn =>
      show (e.turn?.getD e).Idle
      cases hturn : e.turn? with
      | none => exact h
      | some e' =>
        obtain ⟨event, rest, -, rfl⟩ := turn?_eq_some hturn
        have hpopped : (e.withQueue rest).Idle := ⟨h.runners, h.subscribers, h.registered⟩
        rw [Option.getD_some, hpopped.handle event]
        exact hpopped

/-! ### Any order of events -/

/-- What fires can and cannot do from a state on, whatever the timer service delivers. -/
structure FiresSafe (e : Engine H) : Prop where
  /-- A fire changes something only if it is in force. -/
  ignored : ∀ fire, ¬ e.InForce fire → e.handle (.timer fire) = e
  /-- It is not in force after it has been handled, -/
  handled : ∀ fire, ¬ (e.handle (.timer fire)).InForce fire
  /-- nor when its node has cancelled the timer or armed another one under its key, -/
  retired : ∀ r ∈ e.runners, ∀ n ∈ r.graph.nodes, ∀ t ∈ n.timers, ∀ commands : List Command,
    (∃ command ∈ commands, command.Retires t.key) →
      ∀ t' ∈ (commands.foldl (World.carryOut e.context r.graph.id n.id) (n.timers, e.world)).1,
        t'.token ≠ t.token
  /-- nor when another timer has been armed under its key in any other way, as by a trigger with a
  pulse, -/
  replaced : ∀ r ∈ e.runners, ∀ n ∈ r.graph.nodes, ∀ t ∈ n.timers, ∀ commands : List Command,
    ∀ t' ∈ (commands.foldl (World.carryOut e.context r.graph.id n.id) (n.timers, e.world)).1,
      t'.key = t.key → t'.token ≠ t.token →
        ∀ t'' ∈ (commands.foldl (World.carryOut e.context r.graph.id n.id) (n.timers, e.world)).1,
          t''.token ≠ t.token
  /-- nor after a stop -/
  stopped : ∀ fire, ¬ e.stop.InForce fire
  /-- or a load. -/
  reloaded : ∀ c fire, fire.token < e.world.nextToken → ¬ (e.install c).2.InForce fire
  /-- Once it is not in force any more, it will never be. -/
  never_again : ∀ fire, fire.token < e.world.nextToken → ¬ e.InForce fire →
    ∀ as, ¬ (e.run as).InForce fire
  /-- After a stop and before the next load, no event has an effect, and no change is accepted. -/
  silent : ∀ as, (∀ a ∈ as, ∀ c, a ≠ .install c) →
    (∀ event, (e.stop.run as).handle event = e.stop.run as) ∧
      ∀ limit change, (e.stop.run as).change limit change = some (e.stop.run as)

omit [Host H] in
/-- The armings of a node are part of all armings. -/
theorem issued_node {r : Runner} {n : Node} (h : e.world.Issued e.armings) (hr : r ∈ e.runners)
    (hn : n ∈ r.graph.nodes) : e.world.Issued (n.armings e.generation r.graph.id) := by
  obtain ⟨i, hi⟩ := Array.getElem?_of_mem hr
  obtain ⟨j, hj⟩ := Array.getElem?_of_mem hn
  obtain ⟨others, hperm, -⟩ :=
    exists_flatMap_perm (fun r : Runner => r.graph.armings e.generation) hi
  obtain ⟨others', hperm', -⟩ := Graph.exists_armings_perm e.generation hj
  have hall : e.armings.Perm (n.armings e.generation r.graph.id ++ (others' ++ others)) := by
    rw [← List.append_assoc]
    exact hperm.trans (hperm'.append_right others)
  have hissued := h.perm hall
  constructor
  · have hnodup := hissued.nodup
    rw [List.map_append] at hnodup
    exact hnodup.of_append_left
  · intro a ha
    exact hissued.lt a (List.mem_append_left _ ha)

/-- A load puts every fire out of force that has been issued before. -/
theorem not_inForce_install (h : e.world.Issued e.armings) (c : Configuration) {fire : Fire}
    (hissued : fire.token < e.world.nextToken) : ¬ (e.install c).2.InForce fire := by
  have hstamped : (e.install c).2.world.Stamped e.world.nextToken [] (e.install c).2.armings := by
    refine (World.ledger_stamped H _ _).closed.install ?_
    have hteardown := (World.ledger_stamped H _ _).teardown (e := e) h.stamped
    rw [armings_eq_nil (fresh_assemble e c)]
    exact ⟨hteardown.toIssued, hteardown.le, fun _ ha => nomatch ha⟩
  rw [inForce_iff]
  rintro ⟨a, ha, rfl⟩
  rcases hstamped.old a ha with hold | hnew
  · cases hold
  · omega

/-- From a fresh engine on, in any order of loads, stops, changes and fires, whether timely, late,
repeated or made up, no token is acted upon twice, and every state is safe. -/
theorem Fresh.fires_safe (h : e.Fresh) (as : List (Action H)) :
    ((e.fired as).map Fire.token).Nodup ∧ (e.run as).FiresSafe := by
  have hreachable := (Reachable.fresh h).run as
  have hissued := hreachable.issued
  obtain ⟨c, hruns⟩ := hreachable.exists_runs
  refine ⟨((Reachable.fresh h).fired_once as).1, ?_⟩
  constructor
  case ignored => exact fun fire hgone => handle_eq_self hruns hgone
  case handled => exact not_inForce_handle hruns hissued
  case retired =>
    intro r hr n hn t ht commands hretires
    have hkeys : n.timers.UniqueKeys := hruns.uniqueKeys hr hn
    exact World.token_ne_of_retires hkeys (issued_node hissued hr hn) ht hretires
  case replaced =>
    intro r hr n hn t ht commands t' ht' hkey hother
    have hkeys : n.timers.UniqueKeys := hruns.uniqueKeys hr hn
    exact World.token_ne_of_replaced hkeys (issued_node hissued hr hn) ht ht' hkey hother
  case stopped =>
    -- after a stop no graph runs
    rintro fire ⟨-, r, hr, -⟩
    exact (Array.not_mem_empty r hr).elim
  case reloaded => exact fun c fire hlt => not_inForce_install hissued c hlt
  case never_again => exact fun fire hlt hgone bs => hreachable.not_inForce_run hlt hgone bs
  case silent =>
    intro bs hbs
    have hidle := (idle_stop (e.run as)).run hbs
    refine ⟨hidle.handle, fun limit change => ?_⟩
    rw [Engine.change, hidle.registered]
    rfl

/-- The fire of a delay is delivered twice. -/
def repeatedFire : List (Action MemoryHost) :=
  [.install delayed, .post (.timer ⟨1, "g", "d", .main, 1⟩),
    .post (.timer ⟨1, "g", "d", .main, 1⟩), .turn, .turn]

/-- It is acted upon once. -/
theorem fires_safe_repeatedFire :
    (((new default { start := default }).fired repeatedFire).map Fire.token).Nodup ∧
      ((new default { start := default }).run repeatedFire).FiresSafe ∧
      (new default { start := default }).fired repeatedFire = [⟨1, "g", "d", .main, 1⟩] := by
  have hfresh : (new default { start := default } : Engine MemoryHost).Fresh := fresh_new _ rfl
  obtain ⟨hnodup, hsafe⟩ := Fresh.fires_safe hfresh repeatedFire
  exact ⟨hnodup, hsafe, by decide +kernel⟩

end Engine

end SignalGraph
