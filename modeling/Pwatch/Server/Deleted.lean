import Pwatch.Server.Provenance

/-!
# Behind a delete

A delete only sets the cancel flag, and the thread of the watch goes on until it sees it.
What it still does is bounded: it polls each of its breakpoints once more at most, hands on
what these polls and the one before have returned, and behind its loop nothing at all.
-/

namespace Pwatch.Watch

variable {config : WatchConfig} {es : List Event} {s t : State} {e : Event}

/-- The breakpoints left in a pass are different ones when those that are held are. -/
theorem History.toPoll_nodup (h : History es s)
    (hnodup : removedIds es = [] → (createdIds es).Nodup) : s.phase.toPoll.Nodup := by
  have hphase := h.phaseHistory
  cases hp : s.phase with
  | polling pending n =>
      rw [hp] at hphase
      have hpart : pending <:+ createdIds es := ⟨_, hphase.2.1⟩
      exact (hnodup hphase.1.removedIds_eq).sublist hpart.sublist
  | opening | listing | creating _ | failed | head | sleeping | removing _ | exited =>
      exact .nil

/-- A thread that has exited does nothing. -/
theorem Step.of_exited (h : Step config s e t) (hs : s.phase = .exited) :
    t.phase = .exited ∧ e = .stop := by
  cases h with
  | stop => exact ⟨hs, rfl⟩
  | opened hp | openFailed hp | listOne hp _ | listAll hp _ _ | listFailed hp _ | listNone hp _
  | create hp | createFailed hp | createdNone hp _ | start hp _ | enter hp _ | leave hp _ | poll hp
  | pollFailed hp | pass hp _ | giveUp hp _ | wake hp | remove hp | exit hp =>
      rw [hs] at hp
      cases hp

end Pwatch.Watch

namespace Pwatch.Server

open Watch

/-- A watch that does not act itself stands where it stood. -/
theorem Step.phase_eq {arch : Arch} {ws : List Event} {s t : Registry} {e : Event} {r : Nat}
    (h : Step arch s e t) (hs : Creates ws s) (he : ∀ we, e ≠ .watch r we) {l : Launched}
    (hl : (s.creates r).launched = some l) :
    ∃ l', (t.creates r).launched = some l' ∧ l'.watch.phase = l.watch.phase := by
  have hcreate := h.create r
  have hpending := (hs.create r).pending
  have hstop : ∀ we, e.watchEvent r = some we → we = .stop := by
    intro we hwe
    cases e with
    | watch r' we' =>
        obtain ⟨hr, -⟩ := (Option.ite_none_right_eq_some ..).mp hwe
        exact absurd (hr ▸ rfl) (he we')
    | stopped d r' =>
        obtain ⟨-, ⟨⟩⟩ := (Option.ite_none_right_eq_some ..).mp hwe
        rfl
    | _ => cases hwe
  generalize e.watchEvent r = we at hcreate hstop
  generalize s.creates r = c at hcreate hpending hl
  generalize t.creates r = c' at hcreate ⊢
  cases hcreate with
  | same | accept | answer | check | lockInsert | insert => exact ⟨l, hl, rfl⟩
  | number hp =>
      rw [hpending (by rw [hp]; trivial)] at hl
      cases hl
  | watch hl₀ hw =>
      cases hl.symm.trans hl₀
      cases hstop _ rfl
      cases hw with
      | stop => exact ⟨_, rfl, rfl⟩
  | launchFailed | launched => cases hstop _ rfl

/-- A thread that has polled a breakpoint is in its pass. -/
theorem Step.polling_of_polled {arch : Arch} {s t : Registry} {r : Nat} {id : Int32}
    {calls : List SampleData} (h : Step arch s (.watch r (.polled id calls)) t) :
    ∃ l pending n, (t.creates r).launched = some l ∧ l.watch.phase = .polling pending n := by
  cases h with
  | watch hl hw =>
      rw [Registry.setCreate_creates_self]
      cases hw with
      | poll => exact ⟨_, _, _, rfl, rfl⟩

namespace System

variable {ρ : Type} [DecidableEq ρ] {arch : Arch} {limit : Nat} {before after es : List (Event ρ)}
  {s t : System ρ} {e : Event ρ} {d r : Nat} {l : Launched}

/-! ## What a thread has in hand -/

/-- A thread that has samples in hand is in a pass over its breakpoints. -/
theorem polling_of_toDeliver (hrun : Run (Step arch limit) initial es s)
    (hhand : s.toDeliver r ≠ []) :
    ∃ l pending n, (s.registry.creates r).launched = some l ∧
      l.watch.phase = .polling pending n := by
  induction hrun with
  | nil => exact absurd rfl hhand
  | @snoc es t u e hrun hstep ih =>
      have hs := creates_of_run hrun
      -- the watch was in its pass, and others act
      have hother : t.toDeliver r ≠ [] → ∀ {we registry},
          Server.Step arch t.registry we registry → (∀ we', we ≠ .watch r we') →
          ∃ l pending n, (registry.creates r).launched = some l ∧
            l.watch.phase = .polling pending n := by
        intro hhand' we registry hw he
        obtain ⟨l, pending, n, hl, hp⟩ := ih hhand'
        obtain ⟨l', hl', hp'⟩ := hw.phase_eq hs he hl
        exact ⟨l', pending, n, hl', hp'.trans hp⟩
      have hkept : ∀ {r' : Nat} {data : SampleData} {rest : List SampleData},
          t.toDeliver r' = data :: rest →
            Function.update t.toDeliver r' rest r ≠ [] → t.toDeliver r ≠ [] := by
        intro r' data rest hnext hrest
        by_cases hr : r' = r
        · rw [← hr, hnext]
          exact List.cons_ne_nil _ _
        · rwa [Function.update_of_ne (Ne.symm hr)] at hrest
      cases hstep with
      | registry hw hapart =>
          refine hother hhand hw fun we' heq ↦ hhand (hapart.idle r we' heq)
      | @create r' call id registry hw =>
          refine hother hhand hw fun we' heq ↦ ?_
          obtain ⟨rfl, -⟩ := Server.Event.watch.inj heq
          obtain ⟨l, pending, n, hl, hp⟩ := ih hhand
          obtain ⟨l', w, hl', hw', -⟩ := hw.watch_step hs (if_pos rfl)
          cases hl.symm.trans hl'
          cases hw' with
          | create hp' => cases hp.symm.trans hp'
      | @poll r' l id hits registry hl hidle hw =>
          by_cases hr : r' = r
          · exact hr ▸ hw.polling_of_polled
          · have hsame : Function.update t.toDeliver r' (deliver l.config.filter hits) r =
                t.toDeliver r := Function.update_of_ne (Ne.symm hr) ..
            refine hother (hsame ▸ hhand) hw fun we' heq ↦ hr ?_
            exact (Server.Event.watch.inj heq).1
      | @remove r' id registry hidle hw | @removeFailed r' id registry hidle hw =>
          refine hother hhand hw fun we' heq ↦ hhand ?_
          rwa [(Server.Event.watch.inj heq).1] at hidle
      | accept _ hnext => exact ih (hkept hnext hhand)
      | drop _ hnext => exact ih (hkept hnext hhand)
      | reject | hitServer => exact ih hhand

/-! ## Behind the loop -/

/-- The thread of a create has exited. -/
def Exited (s : System ρ) (r : Nat) : Prop :=
  ∃ l, (s.registry.creates r).launched = some l ∧ l.watch.phase = .exited

/-- **A thread that has exited is silent.** -/
theorem silent_of_exited (hbefore : Run (Step arch limit) initial before s) (hexited : Exited s r)
    (hrun : Run (Step arch limit) s es t) :
    Exited t r ∧ t.toDeliver r = [] ∧ polledHits r es = [] ∧ accepted r es = [] ∧
      drops r es = [] := by
  -- nothing is left in the hand of a thread that has exited
  have hempty : ∀ {es : List (Event ρ)} {t : System ρ}, Run (Step arch limit) initial es t →
      Exited t r → t.toDeliver r = [] := by
    rintro es t ht ⟨l, hl, hp⟩
    by_contra hhand
    obtain ⟨l', pending, n, hl', hp'⟩ := polling_of_toDeliver ht hhand
    cases hl.symm.trans hl'
    cases hp.symm.trans hp'
  induction hrun with
  | nil => exact ⟨hexited, hempty hbefore hexited, rfl, rfl, rfl⟩
  | @snoc es t u e hrun hstep ih =>
      obtain ⟨⟨l, hl, hp⟩, hhand, hhits, haccepted, hdrops⟩ := ih
      have ht := hbefore.append hrun
      have hs := creates_of_run ht
      -- the watch itself has no step but `stop`
      have hidle : ∀ {we registry}, Server.Step arch t.registry (.watch r we) registry → False := by
        intro we registry hw
        obtain ⟨l', w, hl', hw', -⟩ := hw.watch_step hs (if_pos rfl)
        cases hl.symm.trans hl'
        cases (hw'.of_exited hp).2
        cases hw with
        | watch _ _ hquiet => exact hquiet.2.1 rfl
      have hstays : Exited u r := by
        have htakes := hstep.registry_takes
        generalize e.ofRegistry = we at htakes
        cases we with
        | none =>
            obtain hsame := htakes.eq_of_none
            exact ⟨l, hsame ▸ hl, hp⟩
        | some we =>
            obtain ⟨l', hl', hp'⟩ := htakes.of_some.phase_eq hs (fun we' heq ↦
              hidle (heq ▸ htakes.of_some)) hl
            exact ⟨l', hl', hp'.trans hp⟩
      have hquiet : e.hitsOf r = [] ∧ e.acceptedOf r = none ∧ e.dropOf r = none := by
        cases hstep with
        | @poll r' l id hits registry _ _ hw =>
            refine ⟨if_neg ?_, rfl, rfl⟩
            rintro rfl
            exact hidle hw
        | @accept r' l data rest hitServer _ hnext =>
            refine ⟨rfl, if_neg ?_, rfl⟩
            rintro rfl
            rw [hhand] at hnext
            cases hnext
        | @drop r' l data rest hitServer _ hnext =>
            refine ⟨rfl, rfl, if_neg ?_⟩
            rintro rfl
            rw [hhand] at hnext
            cases hnext
        | _ => exact ⟨rfl, rfl, rfl⟩
      refine ⟨hstays, hempty (ht.snoc hstep) hstays, ?_, ?_, ?_⟩
      · rw [polledHits_snoc, hhits, hquiet.1, List.append_nil]
      · rw [accepted_snoc, haccepted, hquiet.2.1, Option.toList_none, List.append_nil]
      · rw [drops_snoc, hdrops, hquiet.2.2, Option.toList_none, List.append_nil]

/-! ## After the delete -/

/-- The breakpoints a watch polls, in order. -/
def polls (r : Nat) (es : List (Event ρ)) : List Int32 :=
  (outcomes (watchEvents r (registryEvents es))).map Prod.fst

/-- After `stop` a watch polls each of its breakpoints once at most. -/
theorem polls_nodup (hrun : Run (Step arch limit) initial
    (before ++ .registry (.stopped d r) :: after) s) : (polls r after).Nodup := by
  obtain ⟨t, t', ht, hstep, hafter⟩ := hrun.split_event
  have hcreate := (creates_of_run hrun).create r
  have hsplit : watchEvents r (registryEvents (before ++ .registry (.stopped d r) :: after)) =
      watchEvents r (registryEvents before) ++ .stop :: watchEvents r (registryEvents after) := by
    simp [watchEvents, registryEvents, Server.Event.watchEvent]
  -- the watch alone, split at `stop`
  cases hl : (s.registry.creates r).launched with
  | none =>
      have hnone := hcreate.unlaunched hl
      rw [hsplit] at hnone
      simp at hnone
  | some l =>
      have hwatch := hcreate.watch_run l hl
      rw [hsplit] at hwatch
      obtain ⟨w, w', hw, hstop, hrest⟩ := hwatch.split_event
      have hcancel : w'.cancel = true := by
        cases hstop with
        | stop => rfl
      have hpolls := (polls_after_cancel hrest hcancel).2
      -- the driver has given different ids to what is held
      have hnodup : removedIds (watchEvents r (registryEvents before)) = [] →
          (createdIds (watchEvents r (registryEvents before))).Nodup := by
        intro hremoved
        have howned := (owned ht).nodup r
        have hcreate' := (creates_of_run ht).create r
        cases hl' : (t.registry.creates r).launched with
        | none =>
            rw [hcreate'.unlaunched hl']
            exact .nil
        | some l' =>
            have hhistory := Watch.history (hcreate'.watch_run l' hl')
            rw [← hhistory.removedIds_append_held, hremoved, List.nil_append]
            rwa [Registry.held, hl'] at howned
      have htoPoll : w'.phase.toPoll.Nodup := by
        have hsame := (Watch.history hw).toPoll_nodup hnodup
        cases hstop with
        | stop => exact hsame
      rw [← hpolls] at htoPoll
      exact (List.nodup_append.mp htoPoll).1

/-- **A deleted breakpoint falls silent.**  After a delete has stopped a watch, the watch polls
each of its breakpoints once at most; what it puts in the queue it had in hand at the delete, or
one of these polls has returned it; and when its thread has exited, none of its hits is on its
way to the queue, and none ever will be. -/
theorem deleted_falls_silent (hrun : Run (Step arch limit) initial
    (before ++ .registry (.stopped d r) :: after) s)
    (hl : (s.registry.creates r).launched = some l) :
    (polls r after).Nodup ∧
    (∃ t t', Run (Step arch limit) initial before t ∧
      Step arch limit t (.registry (.stopped d r)) t' ∧ Run (Step arch limit) t' after s ∧
        ((accepted r after).map fun sample ↦ sample.data).Sublist
          (t.toDeliver r ++ deliver l.config.filter (polledHits r after))) ∧
    (l.watch.phase = .exited → s.toDeliver r = [] ∧ ∀ later t, Run (Step arch limit) s later t →
      polledHits r later = [] ∧ accepted r later = [] ∧ drops r later = []) := by
  refine ⟨polls_nodup hrun, ?_, fun hp ↦ ?_⟩
  · obtain ⟨t, t', ht, hstep, hafter⟩ := hrun.split_event
    refine ⟨t, t', ht, hstep, hafter, ?_⟩
    obtain ⟨handed, hsplit, hhanded⟩ := exists_handed r hafter
    have hsame : t'.toDeliver r = t.toDeliver r := by
      cases hstep
      rfl
    rw [(delivers r (ht.snoc hstep) hafter).calls_eq l hl, hsame] at hsplit
    rw [hsplit]
    exact hhanded.sublist.trans (List.sublist_append_left ..)
  · have hexited : Exited s r := ⟨l, hl, hp⟩
    refine ⟨(silent_of_exited hrun hexited .nil).2.1, fun later t hlater ↦ ?_⟩
    exact (silent_of_exited hrun hexited hlater).2.2

/-- A watch that is deleted in its first pass, behind its first hit. -/
theorem deleted_falls_silent_oneHit : ∃ (before after : List (Event Unit)) (s : System Unit)
    (l : Launched), Run (Step .aarch64 0) initial
      (before ++ .registry (.stopped 0 0) :: after) s ∧
      (s.registry.creates 0).launched = some l ∧ l.watch.phase = .exited ∧
        (polls 0 after).Nodup ∧ s.toDeliver 0 = [] := by
  obtain ⟨es, s, l, hit, hrun, -, hl, hid, hwatch, -, -, hidle, hlock, hentry, hdelete⟩ :=
    run_oneHit
  obtain ⟨u, hstop, hl₁⟩ : ∃ u, Run (Server.Step .aarch64) s.registry _ u ∧ _ :=
    run_delete hdelete hlock hentry hl (by rw [hwatch]; trivial)
  -- the thread finishes its pass, sees the flag and removes its breakpoint
  let ws : List Watch.Event := [.passed, .woken, .loaded true, .removed 5, .exited]
  have hws : Run (Watch.Step l.config) { l.watch with cancel := true } ws
      ⟨[7], [5], .exited, 0, true⟩ := by
    rw [hwatch]
    exact .cons (.pass rfl (by decide)) (.cons (.wake rfl) (.cons (.leave rfl rfl)
      (.cons (.remove rfl) (.single (.exit rfl)))))
  let l₂ : Launched := { l with watch := ⟨[7], [5], .exited, 0, true⟩ }
  let u' : Registry := u.setCreate 0 { u.creates 0 with launched := some l₂ }
  have hl₂ : (u'.creates 0).launched = some l₂ := by rw [Registry.setCreate_creates_self]
  have hthread : Run (Server.Step .aarch64) u (ws.map (.watch 0)) u' :=
    run_watch (l := { l with watch := { l.watch with cancel := true } }) hl₁ hws
      (by simp [ws, Quiet])
  have hserver := hstop.append hthread
  obtain ⟨installed, hlift, -⟩ : ∃ installed, Run (Step .aarch64 0) s _
      { s with registry := u', installed := installed } ∧ _ :=
    run_of_registry hidle hserver (by simp [ws, Unpolled])
      (show ([] : List Int32).Nodup from .nil) fun _ h ↦ by cases h
  have hall : Run (Step .aarch64 0) initial ((es ++ [.registry (.deleteLocked 0),
      .registry (.removed 0 1 0)]) ++ .registry (.stopped 0 0) ::
        (ws.map (.watch 0)).map ofServer) { s with registry := u', installed := installed } := by
    rw [List.append_assoc]
    exact hrun.append hlift
  obtain ⟨hpolls, -, hsilent⟩ := deleted_falls_silent hall hl₂
  exact ⟨_, _, _, l₂, hall, hl₂, rfl, hpolls, (hsilent rfl).1⟩

end System

end Pwatch.Server
