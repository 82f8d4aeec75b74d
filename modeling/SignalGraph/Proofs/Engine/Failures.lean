import Mathlib.Data.Option.Defs
import SignalGraph.Proofs.Engine.Rehosting
import SignalGraph.Proofs.Host.Logged

/-!
# Hosts that fail

Two hosts agree if they give the same values and signals and report the same changes, call for call
(`Agreement`); they may refuse different subscriptions and writes. An engine makes the same calls to
both, and its graphs, its timers and its reports are the same (`Engine.failures_contained`).

Two hosts that agree are the images of one host that passes every call on to both
(`Agreement.pairHost`), so whatever is said of them follows from `Engine.serveAll_rehost`.
-/

namespace SignalGraph

variable {H K : Type}

/-! ### Agreement -/

/-- Replies that agree as far as they matter to the engine. -/
structure Reply.Agree {α β : Type} (R : H → K → Prop) (reply : Reply H α) (reply' : Reply K β) :
    Prop where
  hosts : R reply.host reply'.host
  reports_eq : reply'.reports = reply.reports

/-- Hosts in states that `R` relates give the same values and signals and report the same changes,
and their next states are related again. Whether subscriptions and writes succeed does not
matter. -/
structure Agreement [Host H] [Host K] (R : H → K → Prop) : Prop where
  subscribe : ∀ {h k}, R h k → ∀ signal,
    (Host.subscribe h signal).Agree R (Host.subscribe k signal)
  unsubscribe : ∀ {h k}, R h k → ∀ signal,
    (Host.unsubscribe h signal).Agree R (Host.unsubscribe k signal)
  write : ∀ {h k}, R h k → ∀ signal value ack,
    (Host.write h signal value ack).Agree R (Host.write k signal value ack)
  read : ∀ {h k}, R h k → ∀ signal, (Host.read h signal).Agree R (Host.read k signal)
  value_eq : ∀ {h k}, R h k → ∀ signal, (Host.read k signal).answer = (Host.read h signal).answer
  resolve : ∀ {h k}, R h k → ∀ scene, (Host.resolve h scene).Agree R (Host.resolve k scene)
  signal_eq : ∀ {h k}, R h k → ∀ scene,
    (Host.resolve k scene).answer = (Host.resolve h scene).answer

/-- Two hosts in related states. -/
abbrev Pair (R : H → K → Prop) : Type :=
  { p : H × K // R p.1 p.2 }

namespace Agreement

variable [Host H] [Host K] {R : H → K → Prop}

omit [Host H] [Host K] in
/-- The reply of two hosts together. -/
def reply {α β : Type} {a : Reply H α} {b : Reply K β} (h : a.Agree R b) : Reply (Pair R) α :=
  { host := ⟨(a.host, b.host), h.hosts⟩, answer := a.answer, reports := a.reports }

/-- Two hosts that agree, as one host that passes every call on to both. -/
abbrev pairHost (hR : Agreement R) : Host (Pair R) where
  subscribe p signal := reply (hR.subscribe p.2 signal)
  unsubscribe p signal := reply (hR.unsubscribe p.2 signal)
  read p signal := reply (hR.read p.2 signal)
  write p signal value ack := reply (hR.write p.2 signal value ack)
  resolve p scene := reply (hR.resolve p.2 scene)

theorem hom_fst (hR : Agreement R) :
    letI := hR.pairHost
    HostHom fun p : Pair R => p.1.1 := by
  let := hR.pairHost
  exact ⟨fun _ _ => ⟨rfl, rfl⟩, fun _ _ => ⟨rfl, rfl⟩, fun _ _ _ _ => ⟨rfl, rfl⟩,
    fun _ _ => ⟨rfl, rfl⟩, fun _ _ => rfl, fun _ _ => ⟨rfl, rfl⟩, fun _ _ => rfl⟩

theorem hom_snd (hR : Agreement R) :
    letI := hR.pairHost
    HostHom fun p : Pair R => p.1.2 := by
  let := hR.pairHost
  have hfollows : ∀ {α β : Type} {a : Reply H α} {b : Reply K β} (h : a.Agree R b),
      (reply h).Follows (fun p : Pair R => p.1.2) b := fun h => ⟨rfl, h.reports_eq⟩
  exact ⟨fun p _ => hfollows (hR.subscribe p.2 _), fun p _ => hfollows (hR.unsubscribe p.2 _),
    fun p _ _ _ => hfollows (hR.write p.2 _ _ _), fun p _ => hfollows (hR.read p.2 _),
    fun p _ => hR.value_eq p.2 _, fun p _ => hfollows (hR.resolve p.2 _),
    fun p _ => hR.signal_eq p.2 _⟩

end Agreement

/-! ### Logs -/

/-- What the engine asks for, whether it is refused or not. -/
def HostCall.attempt : HostCall → HostCall
  | .write signal value ack _ => .write signal value ack true
  | call => call

/-- The calls of a log with their arguments and answers, and the changes reported meanwhile, but not
which of them were refused. -/
def attempted (log : List HostEntry) : List (HostCall × List Change) :=
  log.map fun entry => (entry.call.attempt, entry.reports)

/-- Related hosts that have been called alike. -/
def Logged.Alike (R : H → K → Prop) (h : Logged H) (k : Logged K) : Prop :=
  R h.host k.host ∧ attempted k.log = attempted h.log

/-- Hosts that agree, agree with a log, too. -/
theorem Agreement.logged [Host H] [Host K] {R : H → K → Prop} (hR : Agreement R) :
    Agreement (Logged.Alike R) := by
  have hpass : ∀ {α β : Type} {h : Logged H} {k : Logged K} {a : Reply H α} {b : Reply K β}
      {call call' : HostCall} {refused refused' : Bool}, Logged.Alike R h k → a.Agree R b →
      call'.attempt = call.attempt →
      (h.pass a call refused).Agree (Logged.Alike R) (k.pass b call' refused') := by
    intro α β h k a b call call' refused refused' halike hagree hcall
    refine ⟨⟨hagree.hosts, ?_⟩, hagree.reports_eq⟩
    simp only [Logged.pass, attempted, List.map_append, List.map_cons, List.map_nil, hcall,
      hagree.reports_eq]
    exact congrArg (· ++ _) halike.2
  have hread : ∀ {α : Type} {x y : α} (call : α → HostCall), y = x →
      (call y).attempt = (call x).attempt := fun call h => by rw [h]
  exact {
    subscribe := fun h signal => hpass h (hR.subscribe h.1 signal) rfl
    unsubscribe := fun h signal => hpass h (hR.unsubscribe h.1 signal) rfl
    write := fun h signal value ack => hpass h (hR.write h.1 signal value ack) rfl
    read := fun h signal =>
      hpass h (hR.read h.1 signal) (hread (.read signal) (hR.value_eq h.1 signal))
    value_eq := fun h => hR.value_eq h.1
    resolve := fun h scene =>
      hpass h (hR.resolve h.1 scene) (hread (.resolve scene) (hR.signal_eq h.1 scene))
    signal_eq := fun h => hR.signal_eq h.1 }

/-! ### Engines -/

namespace Engine

/-- Engines that differ in their hosts alone, and these are related. -/
structure Alike (R : H → K → Prop) (e : Engine H) (e' : Engine K) : Prop where
  host : R e.world.host e'.world.host
  clock_eq : e'.world.clock = e.world.clock
  service_eq : e'.world.service = e.world.service
  nextToken_eq : e'.world.nextToken = e.world.nextToken
  registered_eq : e'.world.registered = e.world.registered
  queue_eq : e'.world.queue = e.world.queue
  settings_eq : e'.settings = e.settings
  generation_eq : e'.generation = e.generation
  scenes_eq : e'.scenes = e.scenes
  /-- The graphs have the same ports, private states, armed timers and statistics. -/
  runners_eq : e'.runners = e.runners
  subscribers_eq : e'.subscribers = e.subscribers

/-- The same request to both engines; what becomes of the hosts in between is related. -/
inductive Request.Alike (R : H → K → Prop) : Request H → Request K → Prop
  | load (c : Configuration) : Alike R (.load c) (.load c)
  | stop : Alike R .stop .stop
  | change (c : Change) : Alike R (.change c) (.change c)
  | advance (millis : Nat) : Alike R (.advance millis) (.advance millis)
  | shiftLocal (millis : Int) : Alike R (.shiftLocal millis) (.shiftLocal millis)
  | host {h : H} {k : K} (hosts : R h k) : Alike R (.host h) (.host k)

variable {R : H → K → Prop}

/-- Two engines that are alike come from one engine on both hosts. -/
theorem Alike.exists_pair {e : Engine H} {e' : Engine K} (h : e.Alike R e') :
    ∃ p : Engine (Pair R), p.rehost (fun p => p.1.1) = e ∧ p.rehost (fun p => p.1.2) = e' := by
  obtain ⟨⟨host, clock, service, nextToken, registered, queue⟩, settings, generation, scenes,
    runners, subscribers⟩ := e
  obtain ⟨⟨host', clock', service', nextToken', registered', queue'⟩, settings', generation',
    scenes', runners', subscribers'⟩ := e'
  obtain ⟨hosts, rfl, rfl, rfl, rfl, rfl, rfl, rfl, rfl, rfl, rfl⟩ := h
  exact ⟨⟨⟨⟨(_, _), hosts⟩, _, _, _, _, _⟩, _, _, _, _, _⟩, rfl, rfl⟩

theorem alike_of_pair (p : Engine (Pair R)) :
    (p.rehost fun p => p.1.1).Alike R (p.rehost fun p => p.1.2) :=
  ⟨p.world.host.2, rfl, rfl, rfl, rfl, rfl, rfl, rfl, rfl, rfl, rfl⟩

theorem Request.exists_pairs {requests : List (Request H)} {requests' : List (Request K)}
    (h : List.Forall₂ (Request.Alike R) requests requests') : ∃ ps : List (Request (Pair R)),
      ps.map (Request.rehost fun p => p.1.1) = requests ∧
        ps.map (Request.rehost fun p => p.1.2) = requests' := by
  induction h with
  | nil => exact ⟨[], rfl, rfl⟩
  | cons halike _ ih =>
    obtain ⟨ps, rfl, rfl⟩ := ih
    cases halike with
    | load c => exact ⟨.load c :: ps, rfl, rfl⟩
    | stop => exact ⟨.stop :: ps, rfl, rfl⟩
    | change c => exact ⟨.change c :: ps, rfl, rfl⟩
    | advance millis => exact ⟨.advance millis :: ps, rfl, rfl⟩
    | shiftLocal millis => exact ⟨.shiftLocal millis :: ps, rfl, rfl⟩
    | host hosts => exact ⟨.host ⟨(_, _), hosts⟩ :: ps, rfl, rfl⟩

variable [Host H] [Host K] {e : Engine H} {e' : Engine K}

/-- Engines that are alike serve requests alike. -/
theorem Alike.serveAll (hR : Agreement R) (h : e.Alike R e') (limit : Nat)
    {requests : List (Request H)} {requests' : List (Request K)}
    (hrequests : List.Forall₂ (Request.Alike R) requests requests') :
    Option.Rel (Alike R) (e.serveAll limit requests) (e'.serveAll limit requests') := by
  let := hR.pairHost
  obtain ⟨p, rfl, rfl⟩ := h.exists_pair
  obtain ⟨ps, rfl, rfl⟩ := Request.exists_pairs hrequests
  rw [serveAll_rehost hR.hom_fst, serveAll_rehost hR.hom_snd]
  cases p.serveAll limit ps with
  | none => exact .none
  | some p' => exact .some (alike_of_pair p')

/-- Loads of engines that are alike report the same. -/
theorem Alike.load_report (hR : Agreement R) (h : e.Alike R e') (limit : Nat) (c : Configuration) :
    (e'.load limit c).map Prod.fst = (e.load limit c).map Prod.fst := by
  let := hR.pairHost
  obtain ⟨p, rfl, rfl⟩ := h.exists_pair
  rw [load_rehost hR.hom_fst, load_rehost hR.hom_snd, Option.map_map, Option.map_map]
  rfl

/-- The same number of timers fires while the same time passes. -/
theorem Alike.advance_count (hR : Agreement R) (h : e.Alike R e') (limit millis : Nat) :
    (e'.advance limit millis).map Prod.fst = (e.advance limit millis).map Prod.fst := by
  let := hR.pairHost
  obtain ⟨p, rfl, rfl⟩ := h.exists_pair
  rw [advance_rehost hR.hom_fst, advance_rehost hR.hom_snd, Option.map_map, Option.map_map]
  rfl

/-- Whatever subscriptions and writes two hosts refuse, if they agree otherwise, the same requests
lead to the same calls, and the graphs are the same with their ports, private states, armed timers
and statistics. Loads report the same, and the same number of timers fires. -/
theorem failures_contained (hR : Agreement R) (limit : Nat) {e : Engine (Logged H)}
    {e' : Engine (Logged K)} (h : e.Alike (Logged.Alike R) e')
    {requests : List (Request (Logged H))} {requests' : List (Request (Logged K))}
    (hrequests : List.Forall₂ (Request.Alike (Logged.Alike R)) requests requests') :
    Option.Rel
      (fun e₁ e₁' => e₁.Alike (Logged.Alike R) e₁' ∧
        (∀ c, (e₁'.load limit c).map Prod.fst = (e₁.load limit c).map Prod.fst) ∧
        ∀ millis, (e₁'.advance limit millis).map Prod.fst = (e₁.advance limit millis).map Prod.fst)
      (e.serveAll limit requests) (e'.serveAll limit requests') := by
  have hserved := h.serveAll hR.logged limit hrequests
  revert hserved
  generalize e.serveAll limit requests = served
  generalize e'.serveAll limit requests' = served'
  intro hserved
  cases hserved with
  | none => exact .none
  | some halike =>
    exact .some ⟨halike, halike.load_report hR.logged limit, halike.advance_count hR.logged limit⟩

/-- A host without values that refuses all subscriptions and writes, or none. -/
structure MuteHost where
  refuses : Bool

instance : Host MuteHost where
  subscribe h signal :=
    { host := h, answer := if h.refuses then .error (.subscribe signal "refused") else .ok () }
  unsubscribe h signal :=
    { host := h, answer := if h.refuses then .error (.subscribe signal "refused") else .ok () }
  read h _ := { host := h, answer := none }
  write h signal _ _ :=
    { host := h, answer := if h.refuses then .error (.write signal "refused") else .ok () }
  resolve h _ := { host := h, answer := none }

theorem agreement_mute : Agreement fun _ _ : MuteHost => True := by
  have hreply : ∀ {α β : Type} {a : Reply MuteHost α} {b : Reply MuteHost β},
      b.reports = a.reports → a.Agree (fun _ _ => True) b := fun h => ⟨trivial, h⟩
  exact ⟨fun _ _ => hreply rfl, fun _ _ => hreply rfl, fun _ _ _ _ => hreply rfl,
    fun _ _ => hreply rfl, fun _ _ => rfl, fun _ _ => hreply rfl, fun _ _ => rfl⟩

/-- A bridge that has no value, and a constant that is written. -/
def written : Configuration :=
  { graphs := [{
      id := "g"
      nodes := [{ id := "a", typeName := "dp_in", params := [("dp", .str "x")] },
        { id := "b", typeName := "const", params := [("value", .bool true)] },
        { id := "c", typeName := "dp_out", params := [("dp", .str "y")] }]
      links := [⟨⟨"b", "out"⟩, ⟨"c", "in"⟩⟩] }] }

/-- An engine on such a host. -/
def mute (refuses : Bool) : Engine (Logged MuteHost) :=
  new ⟨⟨refuses⟩, []⟩ { start := default }

/-- The subscription and the write are refused by one host and not by the other, and nothing else
differs. -/
theorem failures_contained_mute : ∃ e e', (mute true).serveAll 10 [.load written] = some e ∧
    (mute false).serveAll 10 [.load written] = some e' ∧ e.Alike (Logged.Alike fun _ _ => True) e' ∧
    e.world.host.log.any HostEntry.refused = true ∧
    e'.world.host.log.any HostEntry.refused = false := by
  have halike : (mute true).Alike (Logged.Alike fun _ _ => True) (mute false) :=
    ⟨⟨trivial, rfl⟩, rfl, rfl, rfl, rfl, rfl, rfl, rfl, rfl, rfl, rfl⟩
  have hserved := failures_contained agreement_mute 10 halike
    (.cons (.load written) .nil : List.Forall₂ (Request.Alike _) [.load written] [.load written])
  have hrefused : ((mute true).serveAll 10 [.load written]).any
      (fun e => e.world.host.log.any HostEntry.refused) = true := by decide +kernel
  have haccepted : ((mute false).serveAll 10 [.load written]).any
      (fun e => !e.world.host.log.any HostEntry.refused) = true := by decide +kernel
  obtain ⟨e, he, hrefused⟩ := Option.any_eq_true _ _ |>.1 hrefused
  obtain ⟨e', he', haccepted⟩ := Option.any_eq_true _ _ |>.1 haccepted
  rw [he, he'] at hserved
  cases hserved with
  | some hboth => exact ⟨e, e', he, he', hboth.1, hrefused, by simpa using haccepted⟩

end Engine

end SignalGraph
