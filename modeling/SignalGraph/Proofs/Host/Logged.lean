import SignalGraph.Host.Recording

/-!
# Hosts with a log

`Logged H` passes every call on to a host of type `H` and writes it into a log, together with the
changes that the host reported from inside the call. What a log says about the engine is defined
here on its own: which signals are subscribed to (`HostEntry.subscribed?`), which values have been
read (`HostEntry.value?`), and which of the reported changes are accepted (`accepted`).
-/

namespace SignalGraph

/-- A call in the log of a host. -/
structure HostEntry where
  call : HostCall
  /-- Whether the host answered with an error. -/
  refused : Bool
  /-- The changes that the host reported during the call. -/
  reports : List Change

/-- A host with a log. -/
structure Logged (H : Type) where
  host : H
  /-- The calls so far, in order. -/
  log : List HostEntry := []

namespace Logged

variable {H α : Type}

/-- Writes a call into the log. -/
def pass (h : Logged H) (reply : Reply H α) (call : HostCall) (refused : Bool) :
    Reply (Logged H) α :=
  { host := { host := reply.host, log := h.log ++ [⟨call, refused, reply.reports⟩] }
    answer := reply.answer
    reports := reply.reports }

instance [Host H] : Host (Logged H) where
  subscribe h signal :=
    let reply := Host.subscribe h.host signal
    h.pass reply (.subscribe signal) !reply.answer.isOk
  unsubscribe h signal :=
    let reply := Host.unsubscribe h.host signal
    h.pass reply (.unsubscribe signal) !reply.answer.isOk
  read h signal :=
    let reply := Host.read h.host signal
    h.pass reply (.read signal reply.answer) false
  write h signal value ack :=
    let reply := Host.write h.host signal value ack
    h.pass reply (.write signal value ack reply.answer.isOk) !reply.answer.isOk
  resolve h scene :=
    let reply := Host.resolve h.host scene
    h.pass reply (.resolve scene reply.answer) false

end Logged

/-! ### Reading a log -/

namespace HostEntry

/-- The signal that is subscribed to. -/
def subscribed? (entry : HostEntry) : Option String :=
  match entry.call with
  | .subscribe signal => some signal
  | _ => none

/-- The signal whose subscription ends. -/
def unsubscribed? (entry : HostEntry) : Option String :=
  match entry.call with
  | .unsubscribe signal => some signal
  | _ => none

/-- The value that is read. -/
def value? (entry : HostEntry) : Option Change :=
  match entry.call with
  | .read signal (some value) => some ⟨signal, value⟩
  | _ => none

/-- The calls that nodes make: writing and asking for the signal of a scene. -/
def IsEffect (entry : HostEntry) : Prop :=
  match entry.call with
  | .write .. | .resolve .. => True
  | _ => False

/-- The signals that are registered while a call is made: a signal is registered before it is
subscribed to. -/
def register (registered : List String) (entry : HostEntry) : List String :=
  match entry.subscribed? with
  | some signal => signal :: registered
  | none => registered

end HostEntry

/-- Of the changes reported in a log, those whose signal was registered at that moment. -/
def accepted : List String → List HostEntry → List Change
  | _, [] => []
  | registered, entry :: rest =>
    entry.reports.filter (fun c => (entry.register registered).contains c.signal) ++
      accepted (entry.register registered) rest

/-- The signals that are registered at the end of a log. -/
def registeredAfter (registered : List String) (log : List HostEntry) : List String :=
  log.foldl HostEntry.register registered

variable {registered : List String} {log log' : List HostEntry}

theorem accepted_append (registered : List String) (log log' : List HostEntry) :
    accepted registered (log ++ log') =
      accepted registered log ++ accepted (registeredAfter registered log) log' := by
  induction log generalizing registered with
  | nil => rfl
  | cons entry rest ih =>
    rw [List.cons_append, accepted, ih, accepted, List.append_assoc]
    rfl

theorem registeredAfter_append (registered : List String) (log log' : List HostEntry) :
    registeredAfter registered (log ++ log') =
      registeredAfter (registeredAfter registered log) log' :=
  List.foldl_append

/-- Nodes neither subscribe nor unsubscribe, and they do not read. -/
theorem HostEntry.IsEffect.none {entry : HostEntry} (h : entry.IsEffect) :
    entry.subscribed? = none ∧ entry.unsubscribed? = none ∧ entry.value? = none := by
  unfold HostEntry.IsEffect at h
  unfold HostEntry.subscribed? HostEntry.unsubscribed? HostEntry.value?
  cases hcall : entry.call with
  | write | resolve => exact ⟨rfl, rfl, rfl⟩
  | subscribe | unsubscribe | read =>
    rw [hcall] at h
    exact h.elim

theorem filterMap_effects (h : ∀ entry ∈ log, entry.IsEffect) :
    log.filterMap HostEntry.subscribed? = [] ∧ log.filterMap HostEntry.unsubscribed? = [] ∧
      log.filterMap HostEntry.value? = [] := by
  simp only [List.filterMap_eq_nil_iff]
  exact ⟨fun entry hentry => (h entry hentry).none.1, fun entry hentry => (h entry hentry).none.2.1,
    fun entry hentry => (h entry hentry).none.2.2⟩

/-- What has been subscribed to is registered, the last signal first. -/
theorem registeredAfter_eq (registered : List String) (log : List HostEntry) :
    registeredAfter registered log =
      (log.filterMap HostEntry.subscribed?).reverse ++ registered := by
  induction log generalizing registered with
  | nil => rfl
  | cons entry rest ih =>
    rw [registeredAfter, List.foldl_cons]
    show registeredAfter (entry.register registered) rest = _
    rw [ih, HostEntry.register]
    cases hentry : entry.subscribed? with
    | none => rw [List.filterMap_cons_none hentry]
    | some signal =>
      rw [List.filterMap_cons_some hentry, List.reverse_cons, List.append_assoc]
      rfl

theorem registeredAfter_effects (h : ∀ entry ∈ log, entry.IsEffect) (registered : List String) :
    registeredAfter registered log = registered := by
  rw [registeredAfter_eq, (filterMap_effects h).1]
  rfl

/-! ### Subscriptions -/

/-- The signals that a host delivers after a call, if it delivered these before. -/
def HostEntry.deliver (signals : List String) (entry : HostEntry) : List String :=
  match entry.call, entry.refused with
  | .subscribe signal, false => signal :: signals
  | .unsubscribe signal, false => signals.filter fun s => s != signal
  | _, _ => signals

/-- The signals that a host delivers at the end of a log. -/
def subscriptions (log : List HostEntry) : List String :=
  log.foldl HostEntry.deliver []

/-- The host has accepted that subscriptions begin and end. -/
def Obliging (log : List HostEntry) : Prop :=
  ∀ entry ∈ log, entry.refused = true → entry.subscribed? = none ∧ entry.unsubscribed? = none

theorem Obliging.of_append (h : Obliging (log ++ log')) : Obliging log ∧ Obliging log' :=
  ⟨fun entry hentry => h entry (List.mem_append_left _ hentry),
    fun entry hentry => h entry (List.mem_append_right _ hentry)⟩

/-- What one call changes about the signals that are delivered. -/
theorem HostEntry.mem_deliver {entry : HostEntry} {signals : List String} {signal : String}
    (h : entry.refused = true → entry.subscribed? = none ∧ entry.unsubscribed? = none) :
    signal ∈ entry.deliver signals ↔
      (signal ∈ signals ∧ entry.unsubscribed? ≠ some signal) ∨ entry.subscribed? = some signal := by
  obtain ⟨call, refused, reports⟩ := entry
  unfold HostEntry.deliver HostEntry.subscribed? HostEntry.unsubscribed? at *
  dsimp only at h ⊢
  cases call with
  | subscribe other =>
    cases refused with
    | true => exact (Option.some_ne_none _ (h rfl).1).elim
    | false =>
      simp only [List.mem_cons, ne_eq, reduceCtorEq, not_false_eq_true, and_true, Option.some.injEq]
      rw [or_comm, eq_comm]
  | unsubscribe other =>
    cases refused with
    | true => exact (Option.some_ne_none _ (h rfl).2).elim
    | false =>
      simp only [List.mem_filter, bne_iff_ne, ne_eq, Option.some.injEq, reduceCtorEq, or_false]
      rw [eq_comm]
  | _ => simp

/-- A log in which no subscription ends adds what is subscribed to. -/
theorem mem_foldl_deliver_of_none {signals : List String} {signal : String} (h : Obliging log)
    (hnone : log.filterMap HostEntry.unsubscribed? = []) :
    signal ∈ log.foldl HostEntry.deliver signals ↔
      signal ∈ signals ∨ signal ∈ log.filterMap HostEntry.subscribed? := by
  induction log generalizing signals with
  | nil => simp
  | cons entry rest ih =>
    rw [List.filterMap_eq_nil_iff] at hnone
    have hfirst := hnone entry List.mem_cons_self
    have hrest : rest.filterMap HostEntry.unsubscribed? = [] :=
      List.filterMap_eq_nil_iff.2 fun entry hentry => hnone entry (List.mem_cons_of_mem _ hentry)
    rw [List.foldl_cons, ih (fun entry hentry => h entry (List.mem_cons_of_mem _ hentry)) hrest,
      HostEntry.mem_deliver (h entry List.mem_cons_self), hfirst, List.filterMap_cons]
    cases hentry : entry.subscribed? with
    | none => simp
    | some other =>
      simp only [ne_eq, reduceCtorEq, not_false_eq_true, and_true, Option.some.injEq, List.mem_cons,
        or_assoc]
      rw [eq_comm]

/-- When subscriptions end, only the others are left. -/
theorem mem_foldl_deliver_of_calls {signals ended : List String} {signal : String}
    (h : Obliging log) (hcalls : log.map HostEntry.call = ended.map .unsubscribe) :
    signal ∈ log.foldl HostEntry.deliver signals ↔ signal ∈ signals ∧ signal ∉ ended := by
  induction log generalizing signals ended with
  | nil =>
    cases ended with
    | nil => simp
    | cons => cases hcalls
  | cons entry rest ih =>
    cases ended with
    | nil => cases hcalls
    | cons other ended =>
      obtain ⟨hcall, hcalls⟩ := List.cons.inj hcalls
      have hsubscribed : entry.subscribed? = none := by
        rw [HostEntry.subscribed?, hcall]
      have hunsubscribed : entry.unsubscribed? = some other := by
        rw [HostEntry.unsubscribed?, hcall]
      rw [List.foldl_cons, ih (fun entry hentry => h entry (List.mem_cons_of_mem _ hentry)) hcalls,
        HostEntry.mem_deliver (h entry List.mem_cons_self), hsubscribed, hunsubscribed]
      simp only [ne_eq, Option.some.injEq, reduceCtorEq, or_false, List.mem_cons, not_or, and_assoc]
      rw [eq_comm]

end SignalGraph
