import EmbedMq.Bus.Basic

/-!
# Services and their repliers

`createReplier` puts the handler of a new `Replier` under the name of its service, and
the destructor of a `Replier` erases the name. A service should be served exactly while
a replier for it is alive, by the one that was created last. The destructor does not
look whose handler it erases, so this holds as long as a replier is only destroyed when
no other one for the same service is alive.
-/

namespace EmbedMq

namespace MessageBus

/-- The topics and services that a node announces. -/
def localTopics (bus : MessageBus) : List Bytes :=
  bus.router.allTopics ++ bus.serviceHandlers.toList.map fun entry => svcPrefix ++ entry.1

end MessageBus

/-- A `Replier` object. -/
structure Replier where
  id : Nat
  service : Bytes
  handler : Nat
  deriving DecidableEq

/-- A bus with the repliers that are alive, in the order in which they were created. -/
structure Services where
  bus : MessageBus
  repliers : List Replier := []
  created : Nat := 0

namespace Services

inductive Step where
  | create (service : Bytes) (handler : Nat)
  | destroy (id : Nat)

def find (s : Services) (id : Nat) : Option Replier :=
  s.repliers.find? fun rep => rep.id = id

def step : Step → Services → Services
  | .create service handler, s =>
      { bus := s.bus.createReplier service handler
        repliers := s.repliers ++ [⟨s.created, service, handler⟩]
        created := s.created + 1 }
  | .destroy id, s =>
      match s.find id with
      | some rep =>
          { s with
            bus := s.bus.removeServiceHandler rep.service
            repliers := s.repliers.filter fun other => other.id ≠ id }
      | none => s

def run : List Step → Services → Services
  | [], s => s
  | c :: rest, s => run rest (s.step c)

/-- The replier for a service that was created last. -/
def latest (s : Services) (name : Bytes) : Option Replier :=
  (s.repliers.filter fun rep => rep.service = name).getLast?

/-- Exactly the services with a live replier are served and announced, each by the handler of
its latest one. -/
structure Served (s : Services) : Prop where
  handler : ∀ name, s.bus.serviceHandlers.lookup name = (s.latest name).map (·.handler)
  topics : ∀ name, MessageBus.svcPrefix ++ name ∈ s.bus.localTopics ↔
    ∃ rep ∈ s.repliers, rep.service = name

/-- A replier that is destroyed is the only one for its service. -/
def Alone (s : Services) : Step → Prop
  | .create _ _ => True
  | .destroy id => ∀ rep, s.find id = some rep →
      ∀ other ∈ s.repliers, other.service = rep.service → other.id = id

def Separate : Services → List Step → Prop
  | _, [] => True
  | s, c :: rest => s.Alone c ∧ Separate (s.step c) rest

/-- Every replier has an id of its own, and there are no subscriptions. -/
structure WellFormed (s : Services) : Prop where
  ids : ∀ rep ∈ s.repliers, rep.id < s.created
  unique : ∀ rep ∈ s.repliers, ∀ other ∈ s.repliers, rep.id = other.id → rep = other
  router : s.bus.router.allTopics = []

variable {s : Services}

theorem WellFormed.step (h : WellFormed s) (c : Step) : WellFormed (s.step c) := by
  cases c with
  | create service handler =>
      refine ⟨?_, ?_, h.router⟩
      · intro rep hrep
        obtain hrep | hrep := List.mem_append.mp hrep
        · exact Nat.lt_succ_of_lt (h.ids rep hrep)
        · rw [List.mem_singleton.mp hrep]
          exact Nat.lt_succ_self _
      · intro rep hrep other hother hid
        obtain hrep | hrep := List.mem_append.mp hrep
        · obtain hother | hother := List.mem_append.mp hother
          · exact h.unique rep hrep other hother hid
          · rw [List.mem_singleton.mp hother] at hid
            exact absurd hid (Nat.ne_of_lt (h.ids rep hrep))
        · obtain hother | hother := List.mem_append.mp hother
          · rw [List.mem_singleton.mp hrep] at hid
            exact absurd hid.symm (Nat.ne_of_lt (h.ids other hother))
          · rw [List.mem_singleton.mp hrep, List.mem_singleton.mp hother]
  | destroy id =>
      rw [Services.step]
      cases hfind : s.find id with
      | none => exact h
      | some rep =>
          refine ⟨?_, ?_, h.router⟩
          · exact fun rep hrep => h.ids rep (List.mem_of_mem_filter hrep)
          · exact fun rep hrep other hother =>
              h.unique rep (List.mem_of_mem_filter hrep) other (List.mem_of_mem_filter hother)

theorem latest_eq_none_iff {name : Bytes} :
    s.latest name = none ↔ ∀ rep ∈ s.repliers, rep.service ≠ name := by
  rw [latest, List.getLast?_eq_none_iff, List.filter_eq_nil_iff]
  simp

/-- The announced services are the ones with a handler. -/
theorem served_of_handler (h : WellFormed s)
    (hhandler : ∀ name, s.bus.serviceHandlers.lookup name = (s.latest name).map (·.handler)) :
    Served s := by
  refine ⟨hhandler, fun name => ?_⟩
  have hlisted : MessageBus.svcPrefix ++ name ∈ s.bus.localTopics ↔
      s.bus.serviceHandlers.lookup name ≠ none := by
    rw [MessageBus.localTopics, h.router, List.nil_append, List.mem_map]
    constructor
    · rintro ⟨entry, hentry, hname⟩
      rw [← List.append_cancel_left hname, Table.mem_toList_iff.mp hentry]
      simp
    · intro hsome
      obtain ⟨handler, hlookup⟩ := Option.ne_none_iff_exists'.mp hsome
      exact ⟨(name, handler), Table.mem_toList_iff.mpr hlookup, rfl⟩
  rw [hlisted, hhandler name, Ne, Option.map_eq_none_iff, latest_eq_none_iff]
  simp

/-! ### One step -/

theorem served_create (h : WellFormed s) (hserved : Served s) (service : Bytes) (handler : Nat) :
    Served (s.step (.create service handler)) := by
  refine served_of_handler (h.step _) fun name => ?_
  have hlookup : (s.step (.create service handler)).bus.serviceHandlers.lookup name =
      if name = service then some handler else s.bus.serviceHandlers.lookup name :=
    Table.lookup_insert_eq ..
  have hrepliers : (s.step (.create service handler)).repliers =
      s.repliers ++ [⟨s.created, service, handler⟩] := rfl
  rw [hlookup, latest, hrepliers, List.filter_append]
  by_cases hname : name = service
  · simp [hname]
  · simp [hname, Ne.symm hname, hserved.handler name, latest]

section Destroy

variable {id : Nat} {rep : Replier}

theorem step_destroy (hfind : s.find id = some rep) :
    s.step (.destroy id) =
      { s with
        bus := s.bus.removeServiceHandler rep.service
        repliers := s.repliers.filter fun other => other.id ≠ id } := by
  rw [Services.step, hfind]

theorem lookup_destroy (hfind : s.find id = some rep) (name : Bytes) :
    (s.step (.destroy id)).bus.serviceHandlers.lookup name =
      if name = rep.service then none else s.bus.serviceHandlers.lookup name := by
  rw [step_destroy hfind]
  exact Table.lookup_erase_eq ..

theorem mem_repliers_destroy (hfind : s.find id = some rep) {other : Replier} :
    other ∈ (s.step (.destroy id)).repliers ↔ other ∈ s.repliers ∧ other.id ≠ id := by
  rw [step_destroy hfind, List.mem_filter, decide_eq_true_iff]

/-- Only the replier itself is gone, and it is not one of another service. -/
theorem latest_destroy (h : WellFormed s) (hfind : s.find id = some rep) {name : Bytes}
    (hname : name ≠ rep.service) : (s.step (.destroy id)).latest name = s.latest name := by
  have hid : rep.id = id := by simpa using List.find?_some hfind
  rw [latest, latest, step_destroy hfind, List.filter_filter]
  congr 1
  refine List.filter_congr fun other hother => ?_
  by_cases hservice : other.service = name
  · have hne : other.id ≠ id := by
      intro hsame
      have hrep := h.unique other hother rep (List.mem_of_find?_eq_some hfind)
        (hsame.trans hid.symm)
      exact hname (hservice.symm.trans (congrArg Replier.service hrep))
    simp [hservice, hne]
  · simp [hservice]

theorem served_destroy (h : WellFormed s) (hserved : Served s) (hfind : s.find id = some rep)
    (halone : s.Alone (.destroy id)) : Served (s.step (.destroy id)) := by
  refine served_of_handler (h.step _) fun name => ?_
  rw [lookup_destroy hfind]
  by_cases hname : name = rep.service
  · rw [if_pos hname]
    refine (Option.map_eq_none_iff.mpr (latest_eq_none_iff.mpr ?_)).symm
    intro other hother hservice
    obtain ⟨hold, hne⟩ := (mem_repliers_destroy hfind).mp hother
    exact hne (halone rep hfind other hold (hservice.trans hname))
  · rw [if_neg hname, hserved.handler name, latest_destroy h hfind hname]

/-- Without a handler for the service, no replier for it is left. -/
theorem alone_of_served (hfind : s.find id = some rep) (hafter : Served (s.step (.destroy id))) :
    s.Alone (.destroy id) := by
  intro rep' hfind' other hother hservice
  obtain rfl := Option.some.inj (hfind.symm.trans hfind')
  by_contra hne
  have hnone : (s.step (.destroy id)).latest rep.service = none := by
    have hhandler := hafter.handler rep.service
    rw [lookup_destroy hfind, if_pos rfl] at hhandler
    exact Option.map_eq_none_iff.mp hhandler.symm
  have hkept := (mem_repliers_destroy hfind).mpr ⟨hother, hne⟩
  exact latest_eq_none_iff.mp hnone other hkept hservice

theorem served_destroy_iff (h : WellFormed s) (hserved : Served s) (id : Nat) :
    Served (s.step (.destroy id)) ↔ s.Alone (.destroy id) := by
  cases hfind : s.find id with
  | none =>
      have hsame : s.step (.destroy id) = s := by rw [Services.step, hfind]
      rw [hsame]
      refine ⟨fun _ rep hrep => ?_, fun _ => hserved⟩
      rw [hfind] at hrep
      cases hrep
  | some rep => exact ⟨alone_of_served hfind, served_destroy h hserved hfind⟩

end Destroy

theorem served_step_iff (h : WellFormed s) (hserved : Served s) (c : Step) :
    Served (s.step c) ↔ s.Alone c := by
  cases c with
  | create service handler => exact ⟨fun _ => trivial, fun _ => served_create h hserved _ _⟩
  | destroy id => exact served_destroy_iff h hserved id

/-! ### Runs -/

theorem served_run_iff (h : WellFormed s) (hserved : Served s) (steps : List Step) :
    (∀ n, Served (run (steps.take n) s)) ↔ Separate s steps := by
  induction steps generalizing s with
  | nil => simpa [run, Separate] using hserved
  | cons c rest ih =>
      rw [Separate, ← served_step_iff h hserved c]
      constructor
      · intro hall
        have hfirst : Served (s.step c) := hall 1
        exact ⟨hfirst, (ih (h.step c) hfirst).mp fun n => hall (n + 1)⟩
      · rintro ⟨hfirst, hrest⟩ n
        cases n with
        | zero => exact hserved
        | succ n => exact (ih (h.step c) hfirst).mpr hrest n

/-- A bus without repliers. -/
def start (nodeId : UInt16) (localHostName : Bytes) : Services where
  bus := { nodeId, localHostName }

theorem start_wellFormed (nodeId : UInt16) (localHostName : Bytes) :
    WellFormed (start nodeId localHostName) :=
  ⟨by simp [start], by simp [start], rfl⟩

/-- In all states of a run the services with a live replier are served, by the latest one, if and
only if every replier is destroyed as the only one for its service. -/
theorem served_iff_separate (nodeId : UInt16) (localHostName : Bytes) (steps : List Step) :
    (∀ n, Served (run (steps.take n) (start nodeId localHostName))) ↔
      Separate (start nodeId localHostName) steps := by
  have hstart := start_wellFormed nodeId localHostName
  exact served_run_iff hstart (served_of_handler hstart fun _ => rfl) steps

/-- The first of two repliers for a service takes the handler of the second with it. -/
theorem not_served :
    ¬ ∀ nodeId localHostName steps, Served (run steps (start nodeId localHostName)) := by
  intro hclaim
  have hserved := hclaim 1 [] [.create [0x73] 0, .create [0x73] 1, .destroy 0]
  exact absurd (hserved.handler [0x73]) (by decide)

end Services

end EmbedMq
