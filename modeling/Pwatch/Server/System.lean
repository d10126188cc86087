import Pwatch.Server.Creates
import Pwatch.Server.Stream

/-!
# The server as a whole

The registry with the watches it starts, the pipeline behind `on_hit` with the stream of
hits, and the driver that all watches call.  The parts are the systems of their own modules,
and three things tie them together.

* A poll of a watch returns the hits of the driver.  The thread hands the samples that pass
  the filter to `on_hit` one by one, and does nothing else before it is through.
* `on_hit` is the closure of `create_breakpoint_inner`: it sends the sample under the id and
  the process of its own request.
* The driver gives a new breakpoint an id that no installed breakpoint has.  An id may come
  back once its breakpoint is removed; whether a removal succeeds is free.
-/

namespace Pwatch.Server

open Watch

/-- The server, the threads of its watches, and the breakpoints of the driver. -/
structure System (ρ : Type) where
  registry : Registry
  hitServer : HitServer ρ
  /-- What the watch of each create has still to hand to `on_hit`. -/
  toDeliver : Nat → List SampleData
  /-- For each breakpoint that is installed, the create whose watch installed it. -/
  installed : Int32 → Option Nat

namespace System

variable {ρ : Type}

/-- The state `serve` starts with. -/
def initial : System ρ where
  registry := .initial
  hitServer := .initial
  toDeliver := fun _ ↦ []
  installed := fun _ ↦ none

inductive Event (ρ : Type)
  | /-- A request or a watch acts, and no breakpoint comes, is read or goes. -/
    registry (e : Server.Event)
  | created (r : Nat) (call : CreateCall) (id : Int32)
  | /-- `Driver::hits` has returned hits to the watch of a create. -/
    polled (r : Nat) (id : Int32) (hits : List Driver.Hit) (calls : List SampleData)
  | /-- `Driver::remove` has returned, with or without an error. -/
    removed (r : Nat) (id : Int32) (done : Bool)
  | /-- `on_hit` of the watch of a create acts. -/
    onHit (r : Nat) (e : Pipeline.Event)
  | /-- The hit worker or a client acts. -/
    hitServer (e : HitServer.Event ρ)

/-- The action of the registry. -/
@[simp] def Event.ofRegistry : Event ρ → Option Server.Event
  | .registry e => some e
  | .created r call id => some (.watch r (.created call id))
  | .polled r id _ calls => some (.watch r (.polled id calls))
  | .removed r id _ => some (.watch r (.removed id))
  | .onHit _ _ | .hitServer _ => none

/-- The action of the pipeline or the stream. -/
@[simp] def Event.ofHitServer : Event ρ → Option (HitServer.Event ρ)
  | .onHit _ e => some (.pipeline e)
  | .hitServer e => some e
  | _ => none

/-- An action of the registry that is neither a call of the driver with an effect nor one of a
thread that is still busy with the hits of its last poll. -/
structure Apart (toDeliver : Nat → List SampleData) (e : Server.Event) : Prop where
  idle : ∀ r we, e = .watch r we → toDeliver r = []
  not_created : ∀ r call id, e ≠ .watch r (.created call id)
  not_polled : ∀ r id calls, e ≠ .watch r (.polled id calls)
  not_removed : ∀ r id, e ≠ .watch r (.removed id)

/-- An action of the pipeline or the stream that is not one of `on_hit`. -/
def Behind : HitServer.Event ρ → Prop
  | .pipeline (.accepted _) | .pipeline (.rejected _) | .pipeline (.dropped _) => False
  | _ => True

variable [DecidableEq ρ] (arch : Arch) (limit : Nat)

/-- One action of the system. -/
inductive Step : System ρ → Event ρ → System ρ → Prop
  | registry {s : System ρ} {e : Server.Event} {registry : Registry} :
      Server.Step arch s.registry e registry → Apart s.toDeliver e →
      Step s (.registry e) { s with registry }
  | create {s : System ρ} {r : Nat} {call : CreateCall} {id : Int32} {registry : Registry} :
      Server.Step arch s.registry (.watch r (.created call id)) registry →
      s.installed id = none →
      Step s (.created r call id)
        { s with registry, installed := Function.update s.installed id (some r) }
  | poll {s : System ρ} {r : Nat} {l : Launched} {id : Int32} {hits : List Driver.Hit}
      {registry : Registry} :
      (s.registry.creates r).launched = some l → s.toDeliver r = [] →
      Server.Step arch s.registry (.watch r (.polled id (deliver l.config.filter hits)))
        registry →
      Step s (.polled r id hits (deliver l.config.filter hits)) { s with
        registry
        toDeliver := Function.update s.toDeliver r (deliver l.config.filter hits) }
  | remove {s : System ρ} {r : Nat} {id : Int32} {registry : Registry} :
      s.toDeliver r = [] → Server.Step arch s.registry (.watch r (.removed id)) registry →
      Step s (.removed r id true)
        { s with registry, installed := Function.update s.installed id none }
  | removeFailed {s : System ρ} {r : Nat} {id : Int32} {registry : Registry} :
      s.toDeliver r = [] → Server.Step arch s.registry (.watch r (.removed id)) registry →
      Step s (.removed r id false) { s with registry }
  | accept {s : System ρ} {r : Nat} {l : Launched} {data : SampleData} {rest : List SampleData}
      {hitServer : HitServer ρ} :
      (s.registry.creates r).launched = some l → s.toDeliver r = data :: rest →
      HitServer.Step arch limit s.hitServer
        (.pipeline (.accepted ⟨l.id, l.config.pid, data⟩)) hitServer →
      Step s (.onHit r (.accepted ⟨l.id, l.config.pid, data⟩))
        { s with hitServer, toDeliver := Function.update s.toDeliver r rest }
  | /-- The sample stays until its drop is counted. -/
    reject {s : System ρ} {r : Nat} {l : Launched} {data : SampleData} {rest : List SampleData}
      {hitServer : HitServer ρ} :
      (s.registry.creates r).launched = some l → s.toDeliver r = data :: rest →
      HitServer.Step arch limit s.hitServer
        (.pipeline (.rejected ⟨l.id, l.config.pid, data⟩)) hitServer →
      Step s (.onHit r (.rejected ⟨l.id, l.config.pid, data⟩)) { s with hitServer }
  | drop {s : System ρ} {r : Nat} {l : Launched} {data : SampleData} {rest : List SampleData}
      {hitServer : HitServer ρ} :
      (s.registry.creates r).launched = some l → s.toDeliver r = data :: rest →
      HitServer.Step arch limit s.hitServer (.pipeline (.dropped l.id)) hitServer →
      Step s (.onHit r (.dropped l.id))
        { s with hitServer, toDeliver := Function.update s.toDeliver r rest }
  | hitServer {s : System ρ} {e : HitServer.Event ρ} {hitServer : HitServer ρ} :
      HitServer.Step arch limit s.hitServer e hitServer → Behind e →
      Step s (.hitServer e) { s with hitServer }

/-! ## The parts of a run -/

variable {arch : Arch} {limit : Nat} {s t : System ρ} {e : Event ρ} {es : List (Event ρ)} {r : Nat}

/-- The actions of the registry. -/
def registryEvents (es : List (Event ρ)) : List Server.Event := es.filterMap Event.ofRegistry

/-- The actions of the pipeline and the stream. -/
def hitServerEvents (es : List (Event ρ)) : List (HitServer.Event ρ) :=
  es.filterMap Event.ofHitServer

/-- The actions of the pipeline. -/
def pipelineEvents (es : List (Event ρ)) : List Pipeline.Event :=
  HitServer.pipelineEvents (hitServerEvents es)

omit [DecidableEq ρ] in
theorem registryEvents_append (es fs : List (Event ρ)) :
    registryEvents (es ++ fs) = registryEvents es ++ registryEvents fs :=
  List.filterMap_append

omit [DecidableEq ρ] in
theorem hitServerEvents_append (es fs : List (Event ρ)) :
    hitServerEvents (es ++ fs) = hitServerEvents es ++ hitServerEvents fs :=
  List.filterMap_append

theorem Step.registry_takes (h : Step arch limit s e t) :
    Takes (Server.Step arch) s.registry e.ofRegistry t.registry := by
  cases h with
  | registry hstep | create hstep | poll _ _ hstep | remove _ hstep | removeFailed _ hstep =>
      exact .acts hstep
  | accept | reject | drop | hitServer => exact .idle

theorem Step.hitServer_takes (h : Step arch limit s e t) :
    Takes (HitServer.Step arch limit) s.hitServer e.ofHitServer t.hitServer := by
  cases h with
  | registry | create | poll | remove | removeFailed => exact .idle
  | accept _ _ hstep | reject _ _ hstep | drop _ _ hstep | hitServer hstep => exact .acts hstep

/-- A run of the system is a run of the registry. -/
theorem run_registry (hrun : Run (Step arch limit) s es t) :
    Run (Server.Step arch) s.registry (registryEvents es) t.registry :=
  hrun.part fun _ _ _ h ↦ h.registry_takes

/-- A run of the system is a run of the pipeline and the stream. -/
theorem run_hitServer (hrun : Run (Step arch limit) s es t) :
    Run (HitServer.Step arch limit) s.hitServer (hitServerEvents es) t.hitServer :=
  hrun.part fun _ _ _ h ↦ h.hitServer_takes

theorem run_pipeline (hrun : Run (Step arch limit) s es t) :
    Run (Pipeline.Step arch limit) s.hitServer.pipeline (pipelineEvents es)
      t.hitServer.pipeline :=
  HitServer.run_pipeline (run_hitServer hrun)

/-! ## Runs that are possible -/

/-- The breakpoint created at an event of the registry. -/
def createdBreakpoint : Server.Event → Option Int32
  | .watch _ e => e.createdId
  | _ => none

/-- No poll returns hits. -/
def Unpolled (e : Server.Event) : Prop := ∀ r id calls, e ≠ .watch r (.polled id calls)

/-- An action of the registry in the system, where every removal succeeds. -/
def ofServer : Server.Event → Event ρ
  | .watch r (.created call id) => .created r call id
  | .watch r (.removed id) => .removed r id true
  | e => .registry e

/-- An action of the registry without hits is one of the system. -/
theorem step_of_registry {e : Server.Event} {registry : Registry}
    (hidle : s.toDeliver = fun _ ↦ []) (hstep : Server.Step arch s.registry e registry)
    (hpoll : Unpolled e) (hfree : ∀ id, createdBreakpoint e = some id → s.installed id = none) :
    ∃ installed, Step arch limit s (ofServer e) { s with registry, installed } ∧
      ∀ id, createdBreakpoint e ≠ some id → s.installed id = none → installed id = none := by
  have hempty : ∀ r, s.toDeliver r = [] := fun r ↦ by rw [hidle]
  by_cases hc : ∃ r call id, e = .watch r (.created call id)
  · obtain ⟨r, call, id, rfl⟩ := hc
    refine ⟨_, .create hstep (hfree id rfl), fun id' hne hnone ↦ ?_⟩
    rw [Function.update_of_ne fun heq ↦ hne (congrArg some heq.symm), hnone]
  by_cases hr : ∃ r id, e = .watch r (.removed id)
  · obtain ⟨r, id, rfl⟩ := hr
    refine ⟨_, .remove (hempty r) hstep, fun id' _ hnone ↦ ?_⟩
    by_cases heq : id' = id
    · rw [heq, Function.update_self]
    · rw [Function.update_of_ne heq, hnone]
  · have hc' : ∀ r call id, e ≠ .watch r (.created call id) :=
      fun r call id he ↦ hc ⟨r, call, id, he⟩
    have hr' : ∀ r id, e ≠ .watch r (.removed id) := fun r id he ↦ hr ⟨r, id, he⟩
    have hplain : (ofServer e : Event ρ) = .registry e := by
      unfold ofServer
      split
      · exact absurd rfl (hc' _ _ _)
      · exact absurd rfl (hr' _ _)
      · rfl
    rw [hplain]
    exact ⟨s.installed, .registry hstep ⟨fun r _ _ ↦ hempty r, hc', hpoll, hr'⟩,
      fun _ _ hnone ↦ hnone⟩

/-- **A run of the registry without hits is one of the system**, when the driver gives new
ids. -/
theorem run_of_registry {ws : List Server.Event} {registry : Registry}
    (hidle : s.toDeliver = fun _ ↦ [])
    (hrun : Run (Server.Step arch) s.registry ws registry) (hpolls : ∀ e ∈ ws, Unpolled e)
    (hnew : (ws.filterMap createdBreakpoint).Nodup)
    (hfree : ∀ id ∈ ws.filterMap createdBreakpoint, s.installed id = none) :
    ∃ installed, Run (Step arch limit) s (ws.map ofServer) { s with registry, installed } ∧
      ∀ id, id ∉ ws.filterMap createdBreakpoint → s.installed id = none → installed id = none := by
  induction hrun with
  | nil => exact ⟨s.installed, .nil, fun _ _ hnone ↦ hnone⟩
  | @snoc ws u u' e _ hstep ih =>
      rw [filterMap_snoc] at hnew hfree ⊢
      obtain ⟨hnew', -, hlast⟩ := List.nodup_append.mp hnew
      obtain ⟨installed, hws, hinstalled⟩ :=
        ih (fun e he ↦ hpolls e (List.mem_append_left _ he)) hnew'
          fun id hid ↦ hfree id (List.mem_append_left _ hid)
      have hself : ∀ id, createdBreakpoint e = some id → id ∈ (createdBreakpoint e).toList :=
        fun _ ↦ Option.mem_toList.mpr
      have hfresh : ∀ id, createdBreakpoint e = some id → installed id = none := by
        intro id hid
        refine hinstalled id (fun hmem ↦ hlast id hmem id (hself id hid) rfl) ?_
        exact hfree id (List.mem_append_right _ (hself id hid))
      let s' : System ρ := { s with registry := u, installed }
      obtain ⟨installed', hlift, hkept⟩ : ∃ installed',
          Step arch limit s' (ofServer e) { s' with registry := u', installed := installed' } ∧ _ :=
        step_of_registry hidle hstep (hpolls e (by simp)) hfresh
      rw [List.map_append, List.map_singleton]
      refine ⟨installed', hws.snoc hlift, fun id hid hnone ↦ ?_⟩
      have hne : createdBreakpoint e ≠ some id :=
        fun heq ↦ hid (List.mem_append_right _ (hself id heq))
      exact hkept id hne (hinstalled id (fun hmem ↦ hid (List.mem_append_left _ hmem)) hnone)

omit [DecidableEq ρ] in
/-- The actions of the parts in a run that was put together of theirs. -/
theorem events_map_ofServer (ws : List Server.Event) :
    registryEvents (ws.map ofServer : List (Event ρ)) = ws ∧
      hitServerEvents (ws.map ofServer : List (Event ρ)) = [] := by
  have hregistry : ∀ e : Server.Event, (ofServer e : Event ρ).ofRegistry = some e := by
    intro e
    unfold ofServer
    split <;> rfl
  have hhitServer : ∀ e : Server.Event, (ofServer e : Event ρ).ofHitServer = none := by
    intro e
    unfold ofServer
    split <;> rfl
  rw [registryEvents, hitServerEvents, List.filterMap_map, List.filterMap_map]
  refine ⟨(List.filterMap_congr fun e _ ↦ hregistry e).trans List.filterMap_some, ?_⟩
  exact List.filterMap_eq_nil_iff.mpr fun e _ ↦ hhitServer e

omit [DecidableEq ρ] in
theorem events_map_hitServer (hs : List (HitServer.Event ρ)) :
    registryEvents (hs.map .hitServer) = [] ∧ hitServerEvents (hs.map .hitServer) = hs := by
  rw [registryEvents, hitServerEvents, List.filterMap_map, List.filterMap_map]
  exact ⟨List.filterMap_eq_nil_iff.mpr fun _ _ ↦ rfl, List.filterMap_some⟩

/-- **A run of the worker and the clients is one of the system.** -/
theorem run_of_hitServer {hs : List (HitServer.Event ρ)} {hitServer : HitServer ρ}
    (hrun : Run (HitServer.Step arch limit) s.hitServer hs hitServer)
    (hbehind : ∀ e ∈ hs, Behind e) :
    Run (Step arch limit) s (hs.map .hitServer) { s with hitServer } := by
  induction hrun with
  | nil => exact .nil
  | snoc _ hstep ih =>
      rw [List.map_append]
      have hbefore := ih fun e he ↦ hbehind e (List.mem_append_left _ he)
      exact hbefore.snoc (.hitServer hstep (hbehind _ (by simp)))

end System

end Pwatch.Server
