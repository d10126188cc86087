import Pwatch.Server.Creates
import Pwatch.Server.Progress
import Pwatch.Watch.Lifecycle

/-!
# Listed breakpoints and running watches

Every entry says `running`, from its insertion to its removal.  Its watch is not stopped
while it is registered (`not_cancelled_of_registered`), so the only way for the two to
disagree is that the thread gives up after ten failed passes: nobody tells the registry.
-/

namespace Pwatch.Server

open Watch Maps

variable {arch : Arch} {es : List Event} {e : Event} {s t : Registry} {r : Nat}

/-! ## Registered watches are not stopped -/

/-- An entry is registered by the insert of its create. -/
theorem entry_of_step (h : Step arch s e t) {id : UInt64} {entry : BreakpointEntry}
    (hentry : t.breakpoints.lookup id = some entry) :
    s.breakpoints.lookup id = some entry ∨
      (s.creates entry.watch).phase = .inserting entry.view := by
  cases h with
  | @insert r view hp hlock =>
      by_cases hid : id = view.id
      · subst hid
        obtain rfl : ⟨view, r⟩ = entry :=
          Option.some.inj ((AList.lookup_insert s.breakpoints).symm.trans hentry)
        exact .inr hp
      · exact .inl ((AList.lookup_insert_ne hid).symm.trans hentry)
  | remove hlock hremoved => exact .inl (lookup_of_lookup_erase hentry)
  | _ => exact .inl hentry

/-- A delete that stops a watch has removed its entry. -/
theorem stopping_of_step (h : Step arch s e t) {d : Nat} {id : UInt64}
    (hd : t.deletes d = .stopping id r) : e = .removed d id r ∨ s.deletes d = .stopping id r := by
  cases h with
  | remove _ _ =>
      rcases Registry.setDelete_cases _ _ _ (P := (· = .stopping id r)) hd with
        ⟨rfl, hp⟩ | ⟨-, hold⟩
      · cases hp
        exact .inl rfl
      · exact .inr hold
  | miss _ _ | stop _ _ _ | noContent _ | notFound _ =>
      rcases Registry.setDelete_cases _ _ _ (P := (· = .stopping id r)) hd with
        ⟨-, hp⟩ | ⟨-, hold⟩
      · cases hp
      · exact .inr hold
  | _ => exact .inr hd

theorem removed_of_stopping (hrun : Run (Step arch) Registry.initial es s) {d : Nat} {id : UInt64}
    (hd : s.deletes d = .stopping id r) : .removed d id r ∈ es := by
  induction hrun with
  | nil => cases hd
  | snoc hrun hstep ih =>
      rcases stopping_of_step hstep hd with rfl | hold
      · exact List.mem_append_right _ (.head _)
      · exact List.mem_append_left _ (ih hold)

/-- A breakpoint that is removed is done, and does not come back. -/
theorem unregistered_of_removed (hrun : Run (Step arch) Registry.initial es s) {d : Nat}
    {id : UInt64} (hremoved : .removed d id r ∈ es) :
    (∃ view, (s.creates r).phase = .done (.ok view)) ∧
      ∀ id' entry, s.breakpoints.lookup id' = some entry → entry.watch ≠ r := by
  induction hrun with
  | nil => cases hremoved
  | @snoc es s t e hrun hstep ih =>
      have h := creates hrun
      rcases List.mem_append.mp hremoved with hbefore | hlast
      · obtain ⟨⟨view, hp⟩, hnone⟩ := ih hbefore
        refine ⟨⟨view, (hstep.create r).phase_eq_done hp⟩, ?_⟩
        rintro id' entry hentry rfl
        rcases entry_of_step hstep hentry with hold | hinserting
        · exact hnone id' entry hold rfl
        · rw [hinserting] at hp
          cases hp
      · rw [← List.mem_singleton.mp hlast] at hstep
        cases hstep with
        | @remove _ _ entry₀ hlock hentry₀ =>
            have hp := h.entry_done id entry₀ hentry₀
            refine ⟨⟨_, hp⟩, ?_⟩
            rintro id' entry hentry heq
            -- two entries of one create would have one view, hence one key
            have hold := lookup_of_lookup_erase hentry
            have hp' := h.entry_done id' entry hold
            rw [heq, hp] at hp'
            have hview : entry₀.view = entry.view := by simpa using hp'
            have hid : id' = id := by
              rw [← h.view_id id entry₀ hentry₀, hview, h.view_id id' entry hold]
            rw [hid, Registry.setDelete_breakpoints, AList.lookup_erase] at hentry
            cases hentry

/-- A watch is stopped by a delete, which has removed its entry. -/
theorem removed_of_stop (hrun : Run (Step arch) Registry.initial es s)
    (hstop : .stop ∈ watchEvents r es) : ∃ d id, .removed d id r ∈ es := by
  obtain ⟨e, he, hwatch⟩ := List.mem_filterMap.mp hstop
  obtain ⟨before, after, rfl⟩ := List.append_of_mem he
  obtain ⟨t, t', hbefore, hstep, -⟩ := hrun.split_event
  cases hstep with
  | @stop d r' id l w hd hl hw =>
      obtain rfl : r' = r := by
        by_contra hne
        simp [Event.watchEvent, hne] at hwatch
      exact ⟨d, id, List.mem_append_left _ (removed_of_stopping hbefore hd)⟩
  | @watch r' l e' w hl hw hquiet =>
      by_cases hr : r' = r
      · simp only [Event.watchEvent, if_pos hr, Option.some.injEq] at hwatch
        exact absurd hwatch hquiet.2.1
      · simp [Event.watchEvent, hr] at hwatch
  | @launchFailed r' _ _ _ _ _ _ _ | @launched r' _ _ _ _ _ _ _ =>
      by_cases hr : r' = r <;> simp [Event.watchEvent, hr] at hwatch
  | _ => cases hwatch

/-- **The watch of a registered breakpoint is not stopped.** -/
theorem not_cancelled_of_registered (hrun : Run (Step arch) Registry.initial es s) {id : UInt64}
    {entry : BreakpointEntry} (hentry : s.breakpoints.lookup id = some entry) :
    ∃ l, (s.creates entry.watch).launched = some l ∧ l.watch.phase.Started ∧
      l.watch.cancel = false := by
  have h := creates hrun
  have hcreate := h.create entry.watch
  obtain ⟨l, hl, hstarted⟩ := hcreate.started (by rw [h.entry_done id entry hentry]; trivial)
  refine ⟨l, hl, hstarted, Bool.eq_false_iff.mpr fun hcancel ↦ ?_⟩
  have hstop := (history (hcreate.watch_run l hl)).cancel_iff.mp hcancel
  obtain ⟨d, id', hremoved⟩ := removed_of_stop hrun hstop
  exact (unregistered_of_removed hrun hremoved).2 id entry hentry rfl

/-! ## Watches that do not give up -/

/-- No watch that is not stopped ends its tenth failed pass in a row. -/
def KeepsPolling (s : Registry) : Event → Prop
  | .watch r .passed => ∀ l n, (s.creates r).launched = some l → l.watch.phase = .polling [] n →
      l.watch.cancel = false → errorsAfter l.watch n < 10
  | _ => True

theorem keepsPolling_of_ne (h : ∀ r, e ≠ .watch r .passed) : KeepsPolling s e := by
  unfold KeepsPolling
  split
  · exact absurd rfl (h _)
  · trivial

theorem eq_watch_passed {e : Event} (h : e.watchEvent r = some .passed) :
    e = .watch r .passed := by
  cases e with
  | watch r' we =>
      by_cases hr : r' = r
      · simp only [Event.watchEvent, if_pos hr, Option.some.injEq] at h
        rw [hr, h]
      · simp [Event.watchEvent, hr] at h
  | stopped d r' => by_cases hr : r' = r <;> simp [Event.watchEvent, hr] at h
  | _ => cases h

/-- A thread that leaves its loop does so because it was stopped. -/
theorem cancelled_of_leftLoop (hrun : Run (Guarded (Step arch) KeepsPolling) Registry.initial es s)
    {l : Launched} (hl : (s.creates r).launched = some l) (hleft : l.watch.phase.LeftLoop) :
    l.watch.cancel = true := by
  induction hrun generalizing l with
  | nil => cases hl
  | @snoc es s t e hrun hstep ih =>
      obtain ⟨hkeeps, hstep⟩ := hstep
      rcases (hstep.create r).launched_cases hl with hold | hinitial | ⟨l₀, we, hl₀, he, hw⟩
      · exact ih hold hleft
      · rw [hinitial] at hleft
        exact hleft.elim
      · generalize hw' : l.watch = w at hw hleft ⊢
        cases hw with
        | stop => rfl
        | leave hp hc => exact hc
        | giveUp hp hge =>
            by_contra hcancel
            rw [eq_watch_passed he] at hkeeps
            exact hge (hkeeps l₀ _ hl₀ hp (Bool.eq_false_iff.mpr hcancel))
        | remove hp | exit hp => exact ih hl₀ (by rw [hp]; trivial)
        | _ => exact hleft.elim

/-! ## Lists -/

/-- A list that may be answered now shows no breakpoint as running whose thread has left
its loop or has removed a breakpoint from the driver. -/
def ListedRunning (arch : Arch) (es : List Event) (s : Registry) : Prop :=
  ∀ q views t, Step arch s (.listed q views) t → ∀ view ∈ views, view.status = "running".toList →
    ∃ entry l, s.breakpoints.lookup view.id = some entry ∧ entry.view = view ∧
      (s.creates entry.watch).launched = some l ∧ l.watch.phase.InLoop ∧
        removedIds (watchEvents entry.watch es) = []

theorem inLoop_of_started {phase : Watch.Phase} (h : phase.Started) (hleft : ¬ phase.LeftLoop) :
    phase.InLoop := by
  cases phase with
  | opening | listing | creating _ | failed => exact h.elim
  | head | polling _ _ | sleeping => trivial
  | removing _ | exited => exact (hleft trivial).elim

/-- **Listed breakpoints run**, as long as no watch gives up. -/
theorem listedRunning (hrun : Run (Guarded (Step arch) KeepsPolling) Registry.initial es s) :
    ListedRunning arch es s := by
  intro q views t hstep view hview hstatus
  have h := creates hrun.of_guarded
  cases hstep with
  | @list _ values hlock hperm =>
      rw [List.mem_mergeSort, hperm.mem_iff, List.mem_map] at hview
      obtain ⟨⟨id, entry⟩, hmem, rfl⟩ := hview
      have hentry : s.breakpoints.lookup id = some entry := AList.mem_lookup_iff.mpr hmem
      obtain ⟨l, hl, hstarted, hcancel⟩ := not_cancelled_of_registered hrun.of_guarded hentry
      have hloop : l.watch.phase.InLoop := inLoop_of_started hstarted fun hleft ↦ by
        rw [cancelled_of_leftLoop hrun hl hleft] at hcancel
        cases hcancel
      have hhistory := history ((h.create entry.watch).watch_run l hl)
      exact ⟨entry, l, h.view_id id entry hentry ▸ hentry, rfl, hl, hloop,
        (hhistory.looping hloop).removedIds_eq⟩

/-- A create that is listed. -/
theorem listedRunning_created :
    ∃ es s, Run (Guarded (Step .aarch64) KeepsPolling) Registry.initial es s ∧
      s.lock = .list 0 ∧ s.breakpoints.keys = [1] ∧ ListedRunning .aarch64 es s := by
  let request : CreateBreakpointRequest := ⟨7, "w4".toList, "0x40".toList, false, none⟩
  let resolved := resolvedAddress request 0x40 none
  let config := watchConfig request (2, 4) resolved none
  let s₁ := afterRegister Registry.initial 0 config 5 (newView 1 config resolved [7] 0) none
  have hcreate : Run (Step .aarch64) Registry.initial _ s₁ :=
    run_admitted_create rfl rfl (show watchpointType request = .ok (2, 4) from rfl)
      (show parsedFilter .aarch64 request = .ok none from rfl) 0x40 none 7 5 0
  have hlock : Step .aarch64 s₁ (.listLocked 0) { s₁ with lock := .list 0 } := .lockList rfl
  have hrun := hcreate.snoc hlock
  have hguarded : Run (Guarded (Step .aarch64) KeepsPolling) Registry.initial _ _ :=
    hrun.guarded fun e he s ↦ keepsPolling_of_ne fun r ↦ by
      rintro rfl
      simp [registerEvents] at he
  exact ⟨_, _, hguarded, rfl, rfl, listedRunning hguarded⟩

/-- A breakpoint whose polls fail ten times is still listed as running. -/
theorem not_listedRunning_giveUp :
    ¬ ∀ (es : List Event) (s : Registry),
      Run (Step .aarch64) Registry.initial es s → ListedRunning .aarch64 es s := by
  intro hclaim
  let request : CreateBreakpointRequest := ⟨7, "w4".toList, "0x40".toList, false, none⟩
  let resolved := resolvedAddress request 0x40 none
  let config := watchConfig request (2, 4) resolved none
  let view := newView 1 config resolved [7] 0
  let l : Launched := ⟨1, config, ⟨[7], [5], .head, 0, false⟩⟩
  let w : Watch.State := ⟨[7], [5], .removing [5], 10, false⟩
  let s₁ := afterRegister Registry.initial 0 config 5 view none
  let s₂ := s₁.setCreate 0 { s₁.creates 0 with launched := some { l with watch := w } }
  have hcreate : Run (Step .aarch64) Registry.initial _ s₁ :=
    run_admitted_create rfl rfl (show watchpointType request = .ok (2, 4) from rfl)
      (show parsedFilter .aarch64 request = .ok none from rfl) 0x40 none 7 5 0
  have hlaunched : (s₁.creates 0).launched = some l := rfl
  obtain ⟨es, hquiet, hgiveUp⟩ :
      ∃ es, (∀ e ∈ es, Quiet e) ∧ Run (Watch.Step config) l.watch es w :=
    run_giveUp (k := 9) rfl rfl rfl
  have hwatch : Run (Step .aarch64) s₁ _ s₂ := run_watch hlaunched hgiveUp hquiet
  have hlock : Step .aarch64 s₂ (.listLocked 0) { s₂ with lock := .list 0 } := .lockList rfl
  have hrun := hcreate.append (hwatch.snoc hlock)
  have hview : view ∈ [view].mergeSort fun a b ↦ a.id ≤ b.id := by simp
  obtain ⟨entry, l', hentry, -, hl', hloop, -⟩ :=
    hclaim _ _ hrun 0 _ _ (.list rfl (List.Perm.refl [view])) view hview rfl
  obtain rfl : ⟨view, 0⟩ = entry := Option.some.inj hentry
  cases hl'
  exact hloop

end Pwatch.Server
