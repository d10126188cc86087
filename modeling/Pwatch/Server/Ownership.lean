import Pwatch.Server.Ledger
import Pwatch.Server.Progress
import Pwatch.Server.System
import Pwatch.Watch.Lifecycle

/-!
# Who owns a driver breakpoint

All watches call one driver, and the driver may give an id again once its breakpoint is
removed.  A watch holds the breakpoints it has created and not asked to remove; every one of
them is installed, for this watch (`Owned`).  So no watch ever polls or removes a breakpoint
of another, or one that is gone, and what is still installed behind a thread is what the
driver has refused to remove.
-/

namespace Pwatch.Server

open Watch

/-! ## What the watch of a create holds -/

/-- The breakpoints the watch of a create holds. -/
def Registry.held (s : Registry) (r : Nat) : List Int32 :=
  (s.creates r).launched.elim [] fun l ↦ l.watch.held

section

variable {arch : Arch} {es : List Event} {s t : Registry} {e : Event}

theorem Step.held_eq (h : Step arch s e t) (hs : Creates es s) (r : Nat) :
    s.held r ++ ((e.watchEvent r).bind Watch.Event.createdId).toList =
      ((e.watchEvent r).bind Watch.Event.removedId).toList ++ t.held r := by
  have hcreate := h.create r
  rw [Registry.held, Registry.held]
  generalize e.watchEvent r = we at hcreate ⊢
  have hpending := (hs.create r).pending
  generalize s.creates r = c at hcreate hpending ⊢
  generalize t.creates r = c' at hcreate ⊢
  cases hcreate with
  | same | accept | answer | check | lockInsert | insert => exact List.append_nil _
  | number hp =>
      rw [hpending (by rw [hp]; trivial)]
      rfl
  | watch hl hw | launchFailed hl _ hw | launched hl _ hw =>
      rw [hl]
      exact hw.held_eq

/-- The watch of a create acts as it does alone. -/
theorem Step.watch_step (h : Step arch s e t) (hs : Creates es s) {r : Nat} {we : Watch.Event}
    (he : e.watchEvent r = some we) :
    ∃ l w, (s.creates r).launched = some l ∧ Watch.Step l.config l.watch we w ∧
      Watch.History (watchEvents r es) l.watch := by
  have hcreate := h.create r
  have hhistory := hs.create r
  rw [he] at hcreate
  generalize s.creates r = c at hcreate hhistory ⊢
  generalize t.creates r = c' at hcreate
  cases hcreate with
  | watch hl hw | launchFailed hl _ hw | launched hl _ hw =>
      exact ⟨_, _, hl, hw, Watch.history (hhistory.watch_run _ hl)⟩

/-- An action that creates and removes no breakpoint changes nothing that is held. -/
theorem Step.held_eq_of_quiet (h : Step arch s e t) (hs : Creates es s)
    (hcreated : ∀ r call id, e ≠ .watch r (.created call id))
    (hremoved : ∀ r id, e ≠ .watch r (.removed id)) (r : Nat) : t.held r = s.held r := by
  have heq := h.held_eq hs r
  have hquiet : ∀ we, e.watchEvent r = some we → we.createdId = none ∧ we.removedId = none := by
    intro we hwe
    cases e with
    | watch r' we' =>
        obtain ⟨-, ⟨⟩⟩ := (Option.ite_none_right_eq_some ..).mp hwe
        cases we with
        | created call id => exact absurd rfl (hcreated r' call id)
        | removed id => exact absurd rfl (hremoved r' id)
        | _ => exact ⟨rfl, rfl⟩
    | stopped d r' =>
        obtain ⟨-, ⟨⟩⟩ := (Option.ite_none_right_eq_some ..).mp hwe
        exact ⟨rfl, rfl⟩
    | _ => cases hwe
  cases hwe : e.watchEvent r with
  | none =>
      rw [hwe] at heq
      simpa using heq.symm
  | some we =>
      obtain ⟨hnone, hnone'⟩ := hquiet we hwe
      rw [hwe, Option.bind_some, Option.bind_some, hnone, hnone'] at heq
      simpa using heq.symm

/-- What the others hold stays when a watch acts. -/
theorem Step.held_eq_of_ne {r : Nat} {we : Watch.Event} (h : Step arch s (.watch r we) t)
    (hs : Creates es s) (r' : Nat) (hr : r' ≠ r) : t.held r' = s.held r' := by
  have heq := h.held_eq hs r'
  rw [watchEvent_watch we r' hr] at heq
  simpa using heq.symm

/-- A watch polls and removes breakpoints that it holds. -/
theorem Step.mem_held (h : Step arch s e t) (hs : Creates es s) {r : Nat} {we : Watch.Event}
    (he : e.watchEvent r = some we) {id : Int32}
    (hid : (∃ ok, we.outcome = some (id, ok)) ∨ we.removedId = some id) : id ∈ s.held r := by
  obtain ⟨l, w, hl, hw, hhistory⟩ := h.watch_step hs he
  rw [Registry.held, hl]
  rcases hid with ⟨ok, houtcome⟩ | hremoved
  · exact hw.mem_held_of_outcome hhistory houtcome
  · have heq := hw.held_eq
    rw [hremoved] at heq
    have hmem : id ∈ l.watch.held ++ we.createdId.toList := heq ▸ List.mem_cons_self
    rcases List.mem_append.mp hmem with hheld | hcreated
    · exact hheld
    · cases hw <;> cases hremoved
      cases hcreated

end

namespace System

variable {ρ : Type} {es : List (Event ρ)} {s t : System ρ} {e : Event ρ} {r : Nat}

/-! ## The invariant -/

/-- **The invariant of the driver.** -/
structure Owned (es : List (Event ρ)) (s : System ρ) : Prop where
  /-- What a watch holds is installed for it. -/
  held : ∀ r, ∀ id ∈ s.registry.held r, s.installed id = some r
  nodup : ∀ r, (s.registry.held r).Nodup
  /-- What is installed is held, or the driver has refused to remove it. -/
  known : ∀ id r, s.installed id = some r →
    id ∈ s.registry.held r ∨ .removed r id false ∈ es

theorem owned_initial : Owned [] (initial : System ρ) where
  held _ _ hid := by cases hid
  nodup _ := .nil
  known _ _ hid := by cases hid

/-- A step that neither creates nor removes a breakpoint. -/
theorem Owned.frame (h : Owned es s) (hheld : ∀ r, t.registry.held r = s.registry.held r)
    (hinstalled : t.installed = s.installed) : Owned (es ++ [e]) t where
  held r id hid := by
    rw [hheld] at hid
    rw [hinstalled]
    exact h.held r id hid
  nodup r := hheld r ▸ h.nodup r
  known id r hid := by
    rw [hinstalled] at hid
    rw [hheld]
    exact (h.known id r hid).imp_right (List.mem_append_left _)

/-- A breakpoint is created under an id that nobody holds. -/
theorem Owned.create (h : Owned es s) {id : Int32} (hfree : s.installed id = none)
    (hself : t.registry.held r = s.registry.held r ++ [id])
    (hother : ∀ r', r' ≠ r → t.registry.held r' = s.registry.held r')
    (hinstalled : t.installed = Function.update s.installed id (some r)) :
    Owned (es ++ [e]) t := by
  have hnew : ∀ r', id ∉ s.registry.held r' := fun r' hid ↦ by
    rw [h.held r' id hid] at hfree
    cases hfree
  refine ⟨fun r' id' hid' ↦ ?_, fun r' ↦ ?_, fun id' r' hid' ↦ ?_⟩
  · rw [hinstalled]
    by_cases hr : r' = r
    · rw [hr, hself, List.mem_append, List.mem_singleton] at hid'
      rcases hid' with hid' | rfl
      · have hne : id' ≠ id := fun heq ↦ hnew r (heq ▸ hid')
        rw [Function.update_of_ne hne, hr]
        exact h.held r id' hid'
      · rw [Function.update_self, hr]
    · rw [hother r' hr] at hid'
      have hne : id' ≠ id := fun heq ↦ hnew r' (heq ▸ hid')
      rw [Function.update_of_ne hne]
      exact h.held r' id' hid'
  · by_cases hr : r' = r
    · rw [hr, hself, ← List.concat_eq_append]
      exact (h.nodup r).concat (hnew r)
    · exact hother r' hr ▸ h.nodup r'
  · rw [hinstalled] at hid'
    by_cases heq : id' = id
    · rw [heq, Function.update_self] at hid'
      cases hid'
      exact .inl (by rw [hself, heq]; simp)
    · rw [Function.update_of_ne heq] at hid'
      refine (h.known id' r' hid').imp (fun hmem ↦ ?_) (List.mem_append_left _)
      by_cases hr : r' = r
      · rw [hr] at hmem ⊢
        exact hself ▸ List.mem_append_left _ hmem
      · exact (hother r' hr).symm ▸ hmem

/-- A watch asks for the removal of the first breakpoint that it holds. -/
theorem Owned.remove (h : Owned es s) {id : Int32} {done : Bool}
    (hself : s.registry.held r = id :: t.registry.held r)
    (hother : ∀ r', r' ≠ r → t.registry.held r' = s.registry.held r')
    (hinstalled : t.installed = if done then Function.update s.installed id none
      else s.installed) :
    Owned (es ++ [.removed r id done]) t := by
  have hnodup := h.nodup r
  rw [hself, List.nodup_cons] at hnodup
  have howner : s.installed id = some r := h.held r id (hself ▸ List.mem_cons_self)
  have hsub : ∀ r', ∀ id' ∈ t.registry.held r', id' ∈ s.registry.held r' := by
    intro r' id' hid'
    by_cases hr : r' = r
    · rw [hr] at hid' ⊢
      exact hself ▸ List.mem_cons_of_mem _ hid'
    · exact hother r' hr ▸ hid'
  -- nobody holds the breakpoint any more
  have hgone : ∀ r', id ∉ t.registry.held r' := by
    intro r' hid
    have hr : r' = r := by
      have hsame := (h.held r' id (hsub r' id hid)).symm.trans howner
      exact Option.some.inj hsame
    exact hnodup.1 (hr ▸ hid)
  have hkeep : ∀ id', id' ≠ id → t.installed id' = s.installed id' := by
    intro id' hne
    rw [hinstalled]
    split
    · exact Function.update_of_ne hne ..
    · rfl
  refine ⟨fun r' id' hid' ↦ ?_, fun r' ↦ ?_, fun id' r' hid' ↦ ?_⟩
  · rw [hkeep id' fun heq ↦ hgone r' (heq ▸ hid')]
    exact h.held r' id' (hsub r' id' hid')
  · by_cases hr : r' = r
    · exact hr ▸ hnodup.2
    · exact hother r' hr ▸ h.nodup r'
  · by_cases heq : id' = id
    · cases done with
      | true =>
          rw [hinstalled, if_pos rfl, heq, Function.update_self] at hid'
          cases hid'
      | false =>
          rw [hinstalled, if_neg (by decide), heq, howner] at hid'
          cases hid'
          exact .inr (by simp [heq])
    · rw [hkeep id' heq] at hid'
      refine (h.known id' r' hid').imp (fun hmem ↦ ?_) (List.mem_append_left _)
      by_cases hr : r' = r
      · rw [hr, hself, List.mem_cons] at hmem
        exact hr ▸ hmem.resolve_left heq
      · exact (hother r' hr).symm ▸ hmem

/-! ## Runs -/

variable [DecidableEq ρ] {arch : Arch} {limit : Nat}

theorem creates_of_run (hrun : Run (Step arch limit) initial es s) :
    Creates (registryEvents es) s.registry :=
  creates (run_registry hrun)

/-- **The step lemma.** -/
theorem Owned.step (h : Owned es s) (hs : Creates (registryEvents es) s.registry)
    (hstep : Step arch limit s e t) : Owned (es ++ [e]) t := by
  have hself : ∀ {r : Nat} {we : Watch.Event} {registry : Registry},
      Server.Step arch s.registry (.watch r we) registry →
        s.registry.held r ++ we.createdId.toList = we.removedId.toList ++ registry.held r := by
    intro r we registry hw
    have heq := hw.held_eq hs r
    rwa [Server.Event.watchEvent, if_pos rfl] at heq
  cases hstep with
  | registry hw hapart =>
      exact h.frame (hw.held_eq_of_quiet hs hapart.not_created hapart.not_removed) rfl
  | create hw hfree => exact h.create hfree (hself hw).symm (hw.held_eq_of_ne hs) rfl
  | poll _ _ hw => exact h.frame (hw.held_eq_of_quiet hs (by simp) (by simp)) rfl
  | remove _ hw =>
      refine h.remove ?_ (hw.held_eq_of_ne hs) rfl
      simpa using hself hw
  | removeFailed _ hw =>
      refine h.remove ?_ (hw.held_eq_of_ne hs) rfl
      simpa using hself hw
  | accept | reject | drop | hitServer => exact h.frame (fun _ ↦ rfl) rfl

/-- **The run lemma.** -/
theorem owned (hrun : Run (Step arch limit) initial es s) : Owned es s :=
  hrun.invariant owned_initial fun _ _ _ _ ht h hstep ↦ h.step (creates_of_run ht) hstep

/-! ## The laws of the driver -/

/-- The watch of a create calls the driver for a breakpoint. -/
def Event.Uses (r : Nat) (id : Int32) : Event ρ → Prop
  | .polled r' id' _ _ | .removed r' id' _ => r' = r ∧ id' = id
  | .registry (.watch r' (.pollFailed id')) => r' = r ∧ id' = id
  | _ => False

omit [DecidableEq ρ] in
/-- A call is a poll or a removal of the watch. -/
theorem Event.Uses.watchEvent {id : Int32} (h : e.Uses r id) :
    ∃ ws we, e.ofRegistry = some ws ∧ ws.watchEvent r = some we ∧
      ((∃ ok, we.outcome = some (id, ok)) ∨ we.removedId = some id) := by
  unfold Uses at h
  split at h
  · obtain ⟨rfl, rfl⟩ := h
    exact ⟨_, _, rfl, if_pos rfl, .inl ⟨true, rfl⟩⟩
  · obtain ⟨rfl, rfl⟩ := h
    exact ⟨_, _, rfl, if_pos rfl, .inr rfl⟩
  · obtain ⟨rfl, rfl⟩ := h
    exact ⟨_, _, rfl, if_pos rfl, .inl ⟨false, rfl⟩⟩
  · exact h.elim

omit [DecidableEq ρ] in
/-- A refused removal is one that the watch has asked for. -/
theorem mem_removedIds {id : Int32} {done : Bool} (h : .removed r id done ∈ es) :
    id ∈ removedIds (watchEvents r (registryEvents es)) := by
  rw [removedIds, watchEvents, registryEvents, List.filterMap_filterMap, List.filterMap_filterMap]
  refine List.mem_filterMap.mpr ⟨_, h, ?_⟩
  simp [Server.Event.watchEvent]

variable (arch limit) in
/-- What holds of the driver in every history of the server. -/
structure DriverLaws (es : List (Event ρ)) (s : System ρ) : Prop where
  /-- A breakpoint that is polled or removed is installed then, and for this watch. -/
  uses_own : ∀ before e after r id, es = before ++ e :: after → e.Uses r id →
    ∃ t u, Run (Step arch limit) initial before t ∧ Step arch limit t e u ∧
      Run (Step arch limit) u after s ∧ t.installed id = some r
  /-- What a watch has created and not asked to remove is installed for it, each breakpoint
  once; so no two watches have a breakpoint in common. -/
  held : ∀ r l, (s.registry.creates r).launched = some l →
    l.watch.held.Nodup ∧ ∀ id ∈ l.watch.held, s.installed id = some r
  /-- A breakpoint that is installed for a watch is one of those, or the driver has refused to
  remove it. -/
  installed : ∀ id r, s.installed id = some r → ∃ l, (s.registry.creates r).launched = some l ∧
    (id ∈ l.watch.held ∨ .removed r id false ∈ es)
  /-- A watch that could not start has left nothing installed. -/
  failed : ∀ r l, (s.registry.creates r).launched = some l → l.watch.phase = .failed →
    ∀ id, s.installed id ≠ some r
  /-- Behind a thread only those are left that the driver has refused to remove. -/
  exited : ∀ r l, (s.registry.creates r).launched = some l → l.watch.phase = .exited →
    ∀ id, s.installed id = some r → .removed r id false ∈ es

/-- **No watch touches the breakpoint of another**, even when the driver gives ids again. -/
theorem driverLaws (hrun : Run (Step arch limit) initial es s) : DriverLaws arch limit es s := by
  have h := owned hrun
  have hcreates := creates_of_run hrun
  have hheld : ∀ {r l}, (s.registry.creates r).launched = some l →
      s.registry.held r = l.watch.held := fun hl ↦ by rw [Registry.held, hl]; rfl
  have hrunning : ∀ {r l}, (s.registry.creates r).launched = some l →
      Watch.History (watchEvents r (registryEvents es)) l.watch := fun hl ↦
    Watch.history ((hcreates.create _).watch_run _ hl)
  have hinstalled : ∀ id r, s.installed id = some r →
      ∃ l, (s.registry.creates r).launched = some l ∧
        (id ∈ l.watch.held ∨ .removed r id false ∈ es) := by
    intro id r hid
    cases hl : (s.registry.creates r).launched with
    | some l => exact ⟨l, rfl, hheld hl ▸ h.known id r hid⟩
    | none =>
        have hnone := (hcreates.create r).unlaunched hl
        rcases h.known id r hid with hmem | hrefused
        · rw [Registry.held, hl] at hmem
          cases hmem
        · have hmem := mem_removedIds hrefused
          rw [hnone] at hmem
          cases hmem
  refine ⟨?_, fun r l hl ↦ ?_, hinstalled, fun r l hl hp id hid ↦ ?_, fun r l hl hp id hid ↦ ?_⟩
  · rintro before e after r id rfl huse
    obtain ⟨t, u, ht, hstep, hafter⟩ := hrun.split_event
    obtain ⟨ws, we, hws, hwe, hid⟩ := huse.watchEvent
    have htakes := hstep.registry_takes
    rw [hws] at htakes
    have hmem := htakes.of_some.mem_held (creates_of_run ht) hwe hid
    exact ⟨t, u, ht, hstep, hafter, (owned ht).held r id hmem⟩
  · exact hheld hl ▸ ⟨h.nodup r, h.held r⟩
  · -- a watch that has failed has created nothing, and so removed nothing
    have hhistory := hrunning hl
    have hphase := hhistory.phaseHistory
    rw [hp] at hphase
    obtain ⟨l', hl', hmem | hrefused⟩ := hinstalled id r hid
    · cases hl.symm.trans hl'
      rw [State.held, hp, hhistory.breakpoints_eq, hphase.1] at hmem
      cases hmem
    · have hmem := mem_removedIds hrefused
      rw [hphase.2.removedIds_eq] at hmem
      cases hmem
  · obtain ⟨l', hl', hmem | hrefused⟩ := hinstalled id r hid
    · cases hl.symm.trans hl'
      rw [State.held, hp] at hmem
      cases hmem
    · exact hrefused

/-- A create whose watch is in its first pass. -/
theorem run_firstPass : ∃ (es : List Server.Event) (u : Registry) (l : Launched),
    Run (Server.Step .aarch64) Registry.initial es u ∧ (∀ e ∈ es, Unpolled e) ∧
      es.filterMap createdBreakpoint = [5] ∧ (ledger es).numbered = [1] ∧
        (u.creates 0).launched = some l ∧ l.id = 1 ∧ l.config.filter = none ∧
          l.watch = ⟨[7], [5], .polling [5] 0, 0, false⟩ ∧ u.lock = .free ∧
            (u.breakpoints.lookup 1).map (fun entry ↦ entry.watch) = some 0 ∧
              u.deletes 0 = .idle := by
  let request : CreateBreakpointRequest := ⟨7, "w4".toList, "0x40".toList, false, none⟩
  have hcreate : Run (Server.Step .aarch64) Registry.initial _ _ :=
    run_admitted_create (r := 0) rfl rfl (show watchpointType request = .ok (2, 4) from rfl)
      (show parsedFilter .aarch64 request = .ok none from rfl) 0x40 none 7 5 0
  have henter := hcreate.append (run_watch (r := 0) rfl (.single (.enter rfl rfl))
    (by simp [Quiet]))
  refine ⟨_, _, _, henter, by simp [registerEvents, Unpolled], rfl, rfl, rfl, rfl, rfl, rfl, rfl,
    ?_, rfl⟩
  exact congrArg _ (AList.lookup_insert _)

/-- A watch that is deleted behind its first poll, and whose breakpoint the driver refuses to
remove. -/
theorem driverLaws_refused : ∃ (es : List (Event Unit)) (s : System Unit),
    Run (Step .aarch64 1) initial es s ∧ .polled 0 5 [] [] ∈ es ∧ .removed 0 5 false ∈ es ∧
      s.installed 5 = some 0 ∧ DriverLaws .aarch64 1 es s := by
  obtain ⟨ws, u, l, hws, hpolls, hcreated, -, hl, -, hfilter, hwatch, hlock, hentry, hdelete⟩ :=
    run_firstPass
  obtain ⟨installed, hfirst, -⟩ : ∃ installed, Run (Step .aarch64 1) (initial : System Unit)
      (ws.map ofServer) ⟨u, .initial, fun _ ↦ [], installed⟩ ∧ _ :=
    run_of_registry rfl hws hpolls (by rw [hcreated]; decide) fun _ _ ↦ rfl
  -- the poll
  let l₁ : Launched := { l with watch := ⟨[7], [5], .polling [] 0, 0, false⟩ }
  let u₁ : Registry := u.setCreate 0 { u.creates 0 with launched := some l₁ }
  have hl₁ : (u₁.creates 0).launched = some l₁ := by rw [Registry.setCreate_creates_self]
  let s₀ : System Unit := ⟨u, .initial, fun _ ↦ [], installed⟩
  let s₁ : System Unit := ⟨u₁, .initial, fun _ ↦ [], installed⟩
  have hpoll : Step .aarch64 1 s₀ (.polled 0 5 [] []) s₁ := by
    have hw : Watch.Step l.config l.watch (.polled 5 (deliver l.config.filter [])) l₁.watch := by
      rw [hwatch]
      exact .poll rfl
    have h : Step .aarch64 1 s₀ (.polled 0 5 [] (deliver l.config.filter [])) _ :=
      .poll hl rfl (.watch hl hw (by simp [Quiet]))
    have hnothing : Function.update s₀.toDeliver 0 [] = fun _ ↦ [] := Function.update_eq_self ..
    rw [hfilter] at h
    rwa [show deliver none [] = [] from rfl, hnothing] at h
  -- the delete
  obtain ⟨u₂, hstop, hl₂⟩ : ∃ u₂, Run (Server.Step .aarch64) u₁ _ u₂ ∧ _ :=
    run_delete (d := 0) hdelete hlock hentry hl₁ trivial
  let removing (pending : List Int32) : Launched :=
    { l with watch := ⟨[7], [5], .removing pending, 0, true⟩ }
  let u₃ : Registry := u₂.setCreate 0 { u₂.creates 0 with launched := some (removing [5]) }
  have hws' : Run (Watch.Step l.config) ⟨[7], [5], .polling [] 0, 0, true⟩
      [.passed, .woken, .loaded true] (removing [5]).watch :=
    .cons (.pass rfl (by decide)) (.cons (.wake rfl) (.single (.leave rfl rfl)))
  have hleave : Run (Server.Step .aarch64) u₂ _ u₃ :=
    run_watch (l := { l with watch := ⟨[7], [5], .polling [] 0, 0, true⟩ }) hl₂ hws'
      (by simp [Quiet])
  obtain ⟨installed, hsecond, -⟩ : ∃ installed, Run (Step .aarch64 1) s₁ _
      ⟨u₃, .initial, fun _ ↦ [], installed⟩ ∧ _ :=
    run_of_registry rfl (hstop.append hleave) (by simp [Unpolled])
      (show ([] : List Int32).Nodup from .nil) fun _ h ↦ by cases h
  -- the removal that the driver refuses
  have hl₃ : (u₃.creates 0).launched = some (removing [5]) := by
    rw [Registry.setCreate_creates_self]
  have hremove : Step .aarch64 1 (⟨u₃, .initial, fun _ ↦ [], installed⟩ : System Unit)
      (.removed 0 5 false) _ :=
    .removeFailed rfl (.watch hl₃ (.remove rfl) (by simp [Quiet]))
  have hbefore := (hfirst.snoc hpoll).append hsecond
  have hrun := hbefore.snoc hremove
  have hinstalled : installed 5 = some 0 := ((driverLaws hbefore).held 0 _ hl₃).2 5 (.head _)
  exact ⟨_, _, hrun, by simp, by simp, hinstalled, driverLaws hrun⟩

end System

end Pwatch.Server
