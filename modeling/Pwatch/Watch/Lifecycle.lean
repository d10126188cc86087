import Mathlib.Data.List.DropRight
import Mathlib.Data.List.Nodup
import Pwatch.Watch.Watcher

/-!
# The life of a watch

What the history of a watch says about its state: no breakpoint outlives a failed
start, the thread gives up its loop for one of two reasons, and then it removes each
breakpoint once and polls none.  `History` is the invariant and `History.step` its
step lemma; after `stop` the polls are those left in the pass that is going on
(`polls_after_cancel`).
-/

namespace Pwatch.Watch

variable {config : WatchConfig} {es : List Event} {e : Event} {s t : State}

/-! ## Counting failed passes -/

/-- The number of passes at the end of the history in which every poll failed. -/
def trailingFailures (ps : List Pass) : Nat := (ps.rtakeWhile (AllFailed ·)).length

theorem trailingFailures_concat_of_allFailed {ps : List Pass} {pass : Pass} (h : AllFailed pass) :
    trailingFailures (ps ++ [pass]) = trailingFailures ps + 1 := by
  rw [trailingFailures, List.rtakeWhile_concat_pos _ _ _ (by simpa using h), List.length_append]
  rfl

theorem trailingFailures_concat_of_not {ps : List Pass} {pass : Pass} (h : ¬ AllFailed pass) :
    trailingFailures (ps ++ [pass]) = 0 := by
  rw [trailingFailures, List.rtakeWhile_concat_neg _ _ _ (by simpa using h)]
  rfl

/-- The failed passes at the end of a list. -/
theorem exists_suffix_of_trailingFailures (ps : List Pass) :
    ∃ earlier recent, ps = earlier ++ recent ∧ recent.length = trailingFailures ps ∧
      ∀ pass ∈ recent, AllFailed pass := by
  obtain ⟨earlier, hps⟩ := List.rtakeWhile_suffix (AllFailed ·) ps
  exact ⟨earlier, _, hps.symm, rfl, fun pass hpass ↦ by simpa using List.mem_rtakeWhile_imp hpass⟩

/-- All polls of a pass failed when the number of failures is that of the polls. -/
theorem allFailed_iff_countP (pass : Pass) :
    AllFailed pass ↔ pass.countP (fun outcome ↦ outcome.2 = false) = pass.length := by
  rw [List.countP_eq_length]
  simp [AllFailed]

/-! ## The invariant -/

/-- The thread has not run. -/
structure Quiet (es : List Event) : Prop where
  passes_eq : passes es = []
  currentPass_eq : currentPass es = []
  removedIds_eq : removedIds es = []
  not_loaded : .loaded true ∉ es

/-- The thread has no reason to leave its loop. -/
structure Looping (es : List Event) (s : State) : Prop where
  removedIds_eq : removedIds es = []
  not_loaded : .loaded true ∉ es
  errors_lt : s.consecutiveErrors < 10

/-- The thread loaded a cancel flag that was set, or ten passes in a row failed. -/
def LeaveCause (es : List Event) : Prop :=
  (∃ before after, es = before ++ .loaded true :: after ∧ .stop ∈ before) ∨
    ∃ earlier recent, passes es = earlier ++ recent ∧ recent.length = 10 ∧
      ∀ pass ∈ recent, pass.map Prod.fst = createdIds es ∧ AllFailed pass

/-- What the history says in each phase. -/
def PhaseHistory (es : List Event) (s : State) : Phase → Prop
  | .opening | .listing | .failed => createdIds es = [] ∧ Quiet es
  | .creating _ => Quiet es
  | .head | .sleeping => Looping es s ∧ currentPass es = []
  | .polling pending n =>
      Looping es s ∧ (currentPass es).map Prod.fst ++ pending = createdIds es ∧
        n = (currentPass es).countP fun outcome ↦ outcome.2 = false
  | .removing pending => LeaveCause es ∧ removedIds es ++ pending = createdIds es
  | .exited => LeaveCause es ∧ removedIds es = createdIds es

/-- **The invariant of a watch.** -/
structure History (es : List Event) (s : State) : Prop where
  breakpoints_eq : s.breakpoints = createdIds es
  cancel_iff : s.cancel = true ↔ .stop ∈ es
  passes_ids : ∀ pass ∈ passes es, pass.map Prod.fst = createdIds es
  errors_eq : s.consecutiveErrors = trailingFailures (passes es)
  phaseHistory : PhaseHistory es s s.phase

theorem history_initial : History [] State.initial where
  breakpoints_eq := rfl
  cancel_iff := by simp [State.initial]
  passes_ids := by simp [passes]
  errors_eq := rfl
  phaseHistory := ⟨rfl, rfl, rfl, rfl, by simp⟩

theorem LeaveCause.snoc (h : LeaveCause es) (hpasses : passes (es ++ [e]) = passes es)
    (hcreated : e.createdId = none) : LeaveCause (es ++ [e]) := by
  rcases h with ⟨before, after, rfl, hstop⟩ | ⟨earlier, recent, hsplit, hlen, hall⟩
  · exact .inl ⟨before, after ++ [e], by simp, hstop⟩
  · refine .inr ⟨earlier, recent, hpasses.trans hsplit, hlen, ?_⟩
    rw [createdIds_snoc, hcreated, Option.toList_none, List.append_nil]
    exact hall

theorem Quiet.snoc (h : Quiet es) (hscan : ∀ ps, scan ps e = ps) (hremoved : e.removedId = none)
    (hloaded : e ≠ .loaded true) : Quiet (es ++ [e]) where
  passes_eq := by rw [passes_snoc, hscan, h.passes_eq]
  currentPass_eq := by rw [currentPass_snoc, hscan, h.currentPass_eq]
  removedIds_eq := by rw [removedIds_snoc, hremoved, h.removedIds_eq]; rfl
  not_loaded := by simp [h.not_loaded, Ne.symm hloaded]

theorem Looping.snoc (h : Looping es s) (hremoved : e.removedId = none)
    (hloaded : e ≠ .loaded true) (herrors : t.consecutiveErrors < 10) : Looping (es ++ [e]) t where
  removedIds_eq := by rw [removedIds_snoc, hremoved, h.removedIds_eq]; rfl
  not_loaded := by simp [h.not_loaded, Ne.symm hloaded]
  errors_lt := herrors

/-- Most events move the phase and nothing else. -/
theorem History.snoc (h : History es s) (hids : t.breakpoints = s.breakpoints)
    (hcancel : t.cancel = s.cancel) (herrors : t.consecutiveErrors = s.consecutiveErrors)
    (hcreated : e.createdId = none) (hstop : e ≠ .stop) (hpasses : passes (es ++ [e]) = passes es)
    (hphase : PhaseHistory (es ++ [e]) t t.phase) : History (es ++ [e]) t where
  breakpoints_eq := by rw [createdIds_snoc, hcreated, hids, h.breakpoints_eq]; simp
  cancel_iff := by
    rw [hcancel, h.cancel_iff]
    simp [Ne.symm hstop]
  passes_ids := by
    rw [createdIds_snoc, hcreated, hpasses]
    simpa using h.passes_ids
  errors_eq := by rw [herrors, hpasses, h.errors_eq]
  phaseHistory := hphase

/-- A finished pass has polled every breakpoint once. -/
theorem History.passes_ids_passed {n : Nat} (h : History es s) (hp : s.phase = .polling [] n) :
    ∀ pass ∈ passes (es ++ [.passed]), pass.map Prod.fst = createdIds (es ++ [.passed]) := by
  have hpolling := h.phaseHistory
  rw [hp] at hpolling
  obtain ⟨-, hcurrent, -⟩ := hpolling
  have hpasses : passes (es ++ [.passed]) = passes es ++ [currentPass es] := passes_snoc es .passed
  have hcreated : createdIds (es ++ [.passed]) = createdIds es := by simp
  intro pass hpass
  rw [hcreated]
  rw [hpasses] at hpass
  rcases List.mem_append.mp hpass with hpass | hpass
  · exact h.passes_ids pass hpass
  · rw [List.mem_singleton.mp hpass, ← hcurrent, List.append_nil]

/-- The counter after a pass is the number of failed passes at the end. -/
theorem History.errorsAfter_eq {n : Nat} (h : History es s) (hp : s.phase = .polling [] n) :
    errorsAfter s n = trailingFailures (passes (es ++ [.passed])) := by
  have hpolling := h.phaseHistory
  rw [hp] at hpolling
  obtain ⟨-, hcurrent, hn⟩ := hpolling
  have hpasses : passes (es ++ [.passed]) = passes es ++ [currentPass es] := passes_snoc es .passed
  have hlen : (currentPass es).length = s.breakpoints.length := by
    rw [h.breakpoints_eq, ← hcurrent, List.append_nil, List.length_map]
  have hall : AllFailed (currentPass es) ↔ n = s.breakpoints.length := by
    rw [allFailed_iff_countP, ← hn, hlen]
  rw [hpasses, errorsAfter]
  split
  · rename_i hfailed
    rw [trailingFailures_concat_of_allFailed (hall.mpr hfailed), h.errors_eq]
  · rename_i hnot
    rw [trailingFailures_concat_of_not fun hfailed ↦ hnot (hall.mp hfailed)]

theorem History.snoc_passed {n : Nat} (h : History es s) (hp : s.phase = .polling [] n)
    (hids : t.breakpoints = s.breakpoints) (hcancel : t.cancel = s.cancel)
    (herrors : t.consecutiveErrors = errorsAfter s n)
    (hphase : PhaseHistory (es ++ [.passed]) t t.phase) : History (es ++ [.passed]) t where
  breakpoints_eq := by simp [hids, h.breakpoints_eq]
  cancel_iff := by simp [hcancel, h.cancel_iff]
  passes_ids := h.passes_ids_passed hp
  errors_eq := herrors.trans (h.errorsAfter_eq hp)
  phaseHistory := hphase

/-- The tenth failed pass in a row is a reason to leave the loop. -/
theorem History.leaveCause_of_giveUp {n : Nat} (h : History es s) (hp : s.phase = .polling [] n)
    (hge : ¬ errorsAfter s n < 10) : LeaveCause (es ++ [.passed]) := by
  have hpolling := h.phaseHistory
  rw [hp] at hpolling
  have hlt := hpolling.1.errors_lt
  have hten : errorsAfter s n = 10 := by
    rw [errorsAfter] at hge ⊢
    split <;> rename_i hn
    · rw [if_pos hn] at hge
      omega
    · rw [if_neg hn] at hge
      omega
  obtain ⟨earlier, recent, hsplit, hlen, hall⟩ :=
    exists_suffix_of_trailingFailures (passes (es ++ [.passed]))
  refine .inr ⟨earlier, recent, hsplit, ?_, fun pass hpass ↦ ⟨?_, hall pass hpass⟩⟩
  · rw [hlen, ← h.errorsAfter_eq hp, hten]
  · exact h.passes_ids_passed hp pass (hsplit ▸ List.mem_append_right earlier hpass)

/-- Setting the cancel flag is no business of the thread. -/
theorem PhaseHistory.snoc_stop {phase : Phase} (h : PhaseHistory es s phase)
    (herrors : t.consecutiveErrors = s.consecutiveErrors) :
    PhaseHistory (es ++ [.stop]) t phase := by
  have hcurrent : currentPass (es ++ [.stop]) = currentPass es := currentPass_snoc _ _
  have hquiet : Quiet es → Quiet (es ++ [.stop]) := fun hq ↦ hq.snoc (fun _ ↦ rfl) rfl (by simp)
  have hloop : Looping es s → Looping (es ++ [.stop]) t := fun hl ↦
    hl.snoc rfl (by simp) (herrors ▸ hl.errors_lt)
  have hcause : LeaveCause es → LeaveCause (es ++ [.stop]) := fun hc ↦
    hc.snoc (passes_snoc _ _) rfl
  cases phase with
  | opening | listing | failed => exact ⟨by simpa using h.1, hquiet h.2⟩
  | creating todo => exact hquiet h
  | head | sleeping => exact ⟨hloop h.1, hcurrent.trans h.2⟩
  | polling pending n => exact ⟨hloop h.1, by simpa [hcurrent] using h.2.1, hcurrent ▸ h.2.2⟩
  | removing pending => exact ⟨hcause h.1, by simpa using h.2⟩
  | exited => exact ⟨hcause h.1, by simpa using h.2⟩

/-- **The step lemma.** -/
theorem History.step (h : History es s) (hstep : Step config s e t) : History (es ++ [e]) t := by
  have hphase := h.phaseHistory
  cases hstep with
  | opened hp | openFailed hp | listFailed hp _ | listNone hp _ =>
      rw [hp] at hphase
      obtain ⟨hcreated, hquiet⟩ := hphase
      refine h.snoc rfl rfl rfl rfl (by simp) (passes_snoc _ _) ⟨by simp [hcreated], ?_⟩
      exact hquiet.snoc (fun _ ↦ rfl) rfl (by simp)
  | listOne hp _ | listAll hp _ _ =>
      rw [hp] at hphase
      refine h.snoc rfl rfl rfl rfl (by simp) (passes_snoc _ _) ?_
      exact hphase.2.snoc (fun _ ↦ rfl) rfl (by simp)
  | @create tid todo id hp =>
      rw [hp] at hphase
      have hquiet : Quiet (es ++ [.created (config.createCall tid) id]) :=
        Quiet.snoc hphase (fun _ ↦ rfl) rfl (by simp)
      exact {
        breakpoints_eq := by simp [h.breakpoints_eq]
        cancel_iff := by simp [h.cancel_iff]
        passes_ids := by simp [hquiet.passes_eq]
        errors_eq := by
          rw [hquiet.passes_eq, ← Quiet.passes_eq hphase]
          exact h.errors_eq
        phaseHistory := hquiet }
  | createFailed hp =>
      rw [hp] at hphase
      refine h.snoc rfl rfl rfl rfl (by simp) (passes_snoc _ _) ?_
      exact Quiet.snoc hphase (fun _ ↦ rfl) rfl (by simp)
  | createdNone hp hnone =>
      rw [hp] at hphase
      have hcreated : createdIds es = [] := h.breakpoints_eq ▸ hnone
      refine h.snoc rfl rfl rfl rfl (by simp) (passes_snoc _ _) ⟨by simp [hcreated], ?_⟩
      exact Quiet.snoc hphase (fun _ ↦ rfl) rfl (by simp)
  | start hp hne =>
      rw [hp] at hphase
      have hquiet : Quiet es := hphase
      refine h.snoc rfl rfl rfl rfl (by simp) (passes_snoc _ _) ⟨?_, ?_⟩
      · have herrors : s.consecutiveErrors = 0 := by rw [h.errors_eq, hquiet.passes_eq]; rfl
        exact ⟨by simp [hquiet.removedIds_eq], by simp [hquiet.not_loaded], by simp [herrors]⟩
      · rw [currentPass_snoc]
        exact hquiet.currentPass_eq
  | stop hstarted =>
      exact {
        breakpoints_eq := by simp [h.breakpoints_eq]
        cancel_iff := by simp
        passes_ids := by
          have hpasses : passes (es ++ [.stop]) = passes es := passes_snoc _ _
          simpa [hpasses] using h.passes_ids
        errors_eq := h.errors_eq.trans (congrArg trailingFailures (passes_snoc es .stop).symm)
        phaseHistory := PhaseHistory.snoc_stop hphase rfl }
  | @enter hp hc =>
      rw [hp] at hphase
      obtain ⟨hloop, hcurrent⟩ := hphase
      have hcurrent' : currentPass (es ++ [.loaded false]) = [] :=
        (currentPass_snoc _ _).trans hcurrent
      refine h.snoc rfl rfl rfl rfl (by simp) (passes_snoc _ _) ⟨?_, ?_, ?_⟩
      · exact hloop.snoc rfl (by simp) hloop.errors_lt
      · simp [hcurrent', h.breakpoints_eq]
      · rw [hcurrent']
        rfl
  | leave hp hc =>
      rw [hp] at hphase
      refine h.snoc rfl rfl rfl rfl (by simp) (passes_snoc _ _) ⟨.inl ⟨es, [], rfl, ?_⟩, ?_⟩
      · exact h.cancel_iff.mp hc
      · simp [hphase.1.removedIds_eq, h.breakpoints_eq]
  | @poll id pending n hits hp =>
      rw [hp] at hphase
      obtain ⟨hloop, hpolled, hn⟩ := hphase
      have hcurrent : currentPass (es ++ [.polled id (deliver config.filter hits)]) =
          currentPass es ++ [(id, true)] := currentPass_snoc _ _
      refine h.snoc rfl rfl rfl rfl (by simp) (passes_snoc _ _) ⟨?_, ?_, ?_⟩
      · exact hloop.snoc rfl (by simp) hloop.errors_lt
      · simp [hcurrent, ← hpolled]
      · simp [hcurrent, hn]
  | @pollFailed id pending n hp =>
      rw [hp] at hphase
      obtain ⟨hloop, hpolled, hn⟩ := hphase
      have hcurrent : currentPass (es ++ [.pollFailed id]) = currentPass es ++ [(id, false)] :=
        currentPass_snoc _ _
      refine h.snoc rfl rfl rfl rfl (by simp) (passes_snoc _ _) ⟨?_, ?_, ?_⟩
      · exact hloop.snoc rfl (by simp) hloop.errors_lt
      · simp [hcurrent, ← hpolled]
      · simp [hcurrent, hn]
  | pass hp hlt =>
      rw [hp] at hphase
      refine h.snoc_passed hp rfl rfl rfl ⟨hphase.1.snoc rfl (by simp) hlt, ?_⟩
      exact currentPass_snoc _ _
  | giveUp hp hge =>
      rw [hp] at hphase
      refine h.snoc_passed hp rfl rfl rfl ⟨h.leaveCause_of_giveUp hp hge, ?_⟩
      simp [hphase.1.removedIds_eq, h.breakpoints_eq]
  | wake hp =>
      rw [hp] at hphase
      obtain ⟨hloop, hcurrent⟩ := hphase
      refine h.snoc rfl rfl rfl rfl (by simp) (passes_snoc _ _) ⟨?_, ?_⟩
      · exact hloop.snoc rfl (by simp) hloop.errors_lt
      · exact (currentPass_snoc _ _).trans hcurrent
  | remove hp =>
      rw [hp] at hphase
      obtain ⟨hcause, hremoved⟩ := hphase
      refine h.snoc rfl rfl rfl rfl (by simp) (passes_snoc _ _) ⟨?_, ?_⟩
      · exact hcause.snoc (passes_snoc _ _) rfl
      · simp [← hremoved]
  | exit hp =>
      rw [hp] at hphase
      obtain ⟨hcause, hremoved⟩ := hphase
      refine h.snoc rfl rfl rfl rfl (by simp) (passes_snoc _ _) ⟨?_, ?_⟩
      · exact hcause.snoc (passes_snoc _ _) rfl
      · simpa using hremoved

/-- **The run lemma.** -/
theorem history (hrun : Run (Step config) State.initial es s) : History es s :=
  hrun.invariant history_initial fun _ _ _ _ _ h hstep ↦ h.step hstep

theorem History.looping (h : History es s) (hp : s.phase.InLoop) : Looping es s := by
  have hphase := h.phaseHistory
  cases hs : s.phase with
  | head | sleeping | polling _ _ =>
      rw [hs] at hphase
      exact hphase.1
  | opening | listing | creating _ | failed | removing _ | exited =>
      rw [hs] at hp
      exact hp.elim

/-! ## Polls -/

/-- The breakpoints that are left in the pass that is going on. -/
def Phase.toPoll : Phase → List Int32
  | .polling pending _ => pending
  | _ => []

/-- Once the cancel flag is set, only the breakpoints left in the current pass are
polled, each in its turn. -/
theorem polls_after_cancel (hrun : Run (Step config) s es t) (hcancel : s.cancel = true) :
    t.cancel = true ∧ (outcomes es).map Prod.fst ++ t.phase.toPoll = s.phase.toPoll := by
  induction hrun with
  | nil => exact ⟨hcancel, rfl⟩
  | snoc _ hstep ih =>
      obtain ⟨hc, hpolls⟩ := ih
      cases hstep with
      | enter hp hc' => simp [hc] at hc'
      | stop hp => exact ⟨rfl, by simpa using hpolls⟩
      | opened hp | openFailed hp | listOne hp _ | listAll hp _ _ | listFailed hp _ | listNone hp _
      | create hp | createFailed hp | createdNone hp _ | start hp _ | leave hp _ | poll hp
      | pollFailed hp | pass hp _ | giveUp hp _ | wake hp | remove hp | exit hp =>
          refine ⟨hc, ?_⟩
          rw [hp] at hpolls
          simpa [Phase.toPoll] using hpolls

/-- Behind its loop the thread polls nothing. -/
theorem polls_after_leave (hrun : Run (Step config) s es t) (hleft : s.phase.LeftLoop) :
    t.phase.LeftLoop ∧ outcomes es = [] := by
  induction hrun with
  | nil => exact ⟨hleft, rfl⟩
  | snoc _ hstep ih =>
      obtain ⟨hl, hnone⟩ := ih
      cases hstep with
      | remove hp | exit hp => exact ⟨trivial, by simp [hnone]⟩
      | stop hp => exact ⟨hl, by simp [hnone]⟩
      | opened hp | openFailed hp | listOne hp _ | listAll hp _ _ | listFailed hp _ | listNone hp _
      | create hp | createFailed hp | createdNone hp _ | start hp _ | leave hp _ | pass hp _
      | giveUp hp _ | wake hp | enter hp _ | poll hp | pollFailed hp =>
          rw [hp] at hl
          cases hl

/-- The breakpoints left in a pass are the last of those that were created. -/
theorem History.toPoll_suffix (h : History es s) : s.phase.toPoll <:+ createdIds es := by
  have hphase := h.phaseHistory
  cases hp : s.phase with
  | polling pending n =>
      rw [hp] at hphase
      exact ⟨_, hphase.2.1⟩
  | opening | listing | creating _ | failed | head | sleeping | removing _ | exited =>
      exact List.nil_suffix

/-- Breakpoints are removed in the order of their creation. -/
theorem History.removedIds_prefix (h : History es s) : removedIds es <+: createdIds es := by
  have hphase := h.phaseHistory
  have hnone : removedIds es = [] → removedIds es <+: createdIds es := fun hr ↦
    hr ▸ List.nil_prefix
  cases hp : s.phase <;> rw [hp] at hphase
  case opening | listing | failed => exact hnone hphase.2.removedIds_eq
  case creating => exact hnone (Quiet.removedIds_eq hphase)
  case head | sleeping | polling => exact hnone hphase.1.removedIds_eq
  case removing => exact ⟨_, hphase.2⟩
  case exited => exact hphase.2 ▸ List.prefix_rfl

/-! ## What a watch holds -/

/-- The breakpoints whose removal was not asked for. -/
def State.held (s : State) : List Int32 :=
  match s.phase with
  | .removing pending => pending
  | .exited => []
  | _ => s.breakpoints

/-- **What a watch holds** grows by what is created and loses what is removed. -/
theorem Step.held_eq (h : Step config s e t) :
    s.held ++ e.createdId.toList = e.removedId.toList ++ t.held := by
  cases h with
  | stop hp =>
      change s.held ++ [] = [] ++ s.held
      rw [List.append_nil, List.nil_append]
  | create hp =>
      rw [State.held, hp]
      rfl
  | remove hp =>
      rw [State.held, hp]
      exact List.append_nil _
  | opened hp | openFailed hp | listOne hp _ | listAll hp _ _ | listFailed hp _ | listNone hp _
  | createFailed hp | createdNone hp _ | start hp _ | enter hp _ | leave hp _ | poll hp
  | pollFailed hp | pass hp _ | giveUp hp _ | wake hp | exit hp =>
      rw [State.held, hp]
      exact List.append_nil _

/-- A watch polls breakpoints that it holds. -/
theorem Step.mem_held_of_outcome (h : Step config s e t) (hs : History es s) {id : Int32}
    {ok : Bool} (he : e.outcome = some (id, ok)) : id ∈ s.held := by
  have hsuffix := hs.toPoll_suffix
  rw [← hs.breakpoints_eq] at hsuffix
  cases h with
  | poll hp | pollFailed hp =>
      cases he
      rw [hp] at hsuffix
      rw [State.held, hp]
      exact hsuffix.subset List.mem_cons_self
  | opened | openFailed | listOne | listAll | listFailed | listNone | create | createFailed
  | createdNone | start | stop | enter | leave | pass | giveUp | wake | remove | exit => cases he

/-- What was created is asked to be removed, or held. -/
theorem History.removedIds_append_held (h : History es s) :
    removedIds es ++ s.held = createdIds es := by
  have hphase := h.phaseHistory
  have hnone : removedIds es = [] → removedIds es ++ s.breakpoints = createdIds es := fun hr ↦ by
    rw [hr, h.breakpoints_eq, List.nil_append]
  rw [State.held]
  cases hp : s.phase <;> rw [hp] at hphase
  case opening | listing | failed => exact hnone hphase.2.removedIds_eq
  case creating => exact hnone (Quiet.removedIds_eq hphase)
  case head | sleeping | polling => exact hnone hphase.1.removedIds_eq
  case removing => exact hphase.2
  case exited => rw [List.append_nil, hphase.2]

/-- The thread can always finish its removals. -/
theorem run_removals {pending : List Int32} (hp : s.phase = .removing pending) :
    Run (Step config) s (pending.map .removed ++ [.exited]) { s with phase := .exited } := by
  induction pending generalizing s with
  | nil => exact .single (.exit hp)
  | cons id pending ih =>
      have hstep : Step config s (.removed id) { s with phase := .removing pending } := .remove hp
      have hrest := ih (s := { s with phase := .removing pending }) rfl
      exact Run.cons hstep hrest

/-! ## The whole life -/

/-- **The lifecycle of a driver breakpoint.**  In every run of a watch whose driver
gives distinct ids: a failed start has left no breakpoint with the driver; the thread is
in its loop while it has not loaded a set flag and fewer than ten passes in a row have
failed, and has left it for one of these reasons; behind the loop it asks for the removal
of every breakpoint, each once and in order, which it can always finish; no breakpoint is
polled after a removal; and none is polled twice after `stop`. -/
theorem lifecycle (hrun : Run (Step config) State.initial es s)
    (hdistinct : (createdIds es).Nodup) :
    (s.phase = .failed → createdIds es = []) ∧
    (s.phase.InLoop →
      removedIds es = [] ∧ .loaded true ∉ es ∧ trailingFailures (passes es) < 10) ∧
    (s.phase.LeftLoop → LeaveCause es) ∧
    (removedIds es <+: createdIds es ∧ (removedIds es).Nodup ∧
      (s.phase = .exited → removedIds es = createdIds es)) ∧
    (∀ pending, s.phase = .removing pending → removedIds es ++ pending = createdIds es ∧
      Run (Step config) s (pending.map .removed ++ [.exited]) { s with phase := .exited }) ∧
    (∀ before id after, es = before ++ .removed id :: after → outcomes after = []) ∧
    ∀ before after, es = before ++ .stop :: after →
      ∀ id, ((outcomes after).map Prod.fst).count id ≤ 1 := by
  have h := history hrun
  have hphase := h.phaseHistory
  refine ⟨?_, ?_, ?_, ?_, ?_, ?_, ?_⟩
  · intro hp
    rw [hp] at hphase
    exact hphase.1
  · intro hp
    have hloop := h.looping hp
    exact ⟨hloop.removedIds_eq, hloop.not_loaded, h.errors_eq ▸ hloop.errors_lt⟩
  · intro hp
    cases hs : s.phase <;> rw [hs] at hp hphase <;> first | exact hphase.1 | exact absurd hp id
  · have hinit : removedIds es <+: createdIds es := h.removedIds_prefix
    refine ⟨hinit, hdistinct.sublist hinit.sublist, fun hp ↦ ?_⟩
    rw [hp] at hphase
    exact hphase.2
  · intro pending hp
    rw [hp] at hphase
    exact ⟨hphase.2, run_removals hp⟩
  · rintro before id after rfl
    obtain ⟨t, t', -, hstep, hafter⟩ := hrun.split_event
    have hleft : t'.phase.LeftLoop := by
      cases hstep with
      | remove hp => trivial
    exact (polls_after_leave hafter hleft).2
  · rintro before after rfl id
    obtain ⟨t, t', hbefore, hstep, hafter⟩ := hrun.split_event
    have hcancel : t'.cancel = true := by
      cases hstep with
      | stop hp => rfl
    have hpolls := (polls_after_cancel hafter hcancel).2
    have hinit : (outcomes after).map Prod.fst <+: t'.phase.toPoll := ⟨_, hpolls⟩
    have hsuffix := (history (.snoc hbefore hstep)).toPoll_suffix
    have hsub :
        (createdIds (before ++ [.stop])).Sublist (createdIds (before ++ .stop :: after)) := by
      rw [List.append_cons before .stop after]
      exact (List.sublist_append_left _ after).filterMap Event.createdId
    have hnodup := hdistinct.sublist ((hinit.sublist.trans hsuffix.sublist).trans hsub)
    exact List.nodup_iff_count_le_one.mp hnodup id

/-- A watch on two threads that is stopped in the middle of its first pass. -/
theorem lifecycle_stopped :
    ∃ es : List Event, ∃ s, Run (Step ⟨5, false, [], [], 3, 64, 4, false, none⟩) .initial es s ∧
      s.phase = .exited ∧ createdIds es = [7, 8] ∧ removedIds es = [7, 8] ∧
        outcomes es = [(7, true), (8, false)] := by
  let config : WatchConfig := ⟨5, false, [], [], 3, 64, 4, false, none⟩
  have hcreate : ∀ {s : State} {tid : UInt32} {todo : List UInt32} (id : Int32),
      s.phase = .creating (tid :: todo) → Step config s (.created (config.createCall tid) id) _ :=
    fun _ ↦ .create
  have hrun : Run (Step config) .initial
      [.opened, .listed [5, 6], .created (config.createCall 5) 7,
        .created (config.createCall 6) 8, .started, .loaded false, .polled 7 (deliver none []),
        .stop, .pollFailed 8, .passed, .woken, .loaded true, .removed 7, .removed 8, .exited]
      ⟨[5, 6], [7, 8], .exited, 0, true⟩ := by
    refine .cons (.opened rfl) (.cons (.listAll rfl rfl (by simp)) ?_)
    refine .cons (hcreate 7 rfl) (.cons (hcreate 8 rfl) (.cons (.start rfl (by simp)) ?_))
    refine .cons (.enter rfl rfl) (.cons (.poll rfl) (.cons (.stop trivial) ?_))
    refine .cons (.pollFailed rfl) (.cons (.pass rfl (by decide)) (.cons (.wake rfl) ?_))
    exact .cons (.leave rfl rfl) (.cons (.remove rfl) (.cons (.remove rfl) (.single (.exit rfl))))
  obtain ⟨-, -, -, ⟨-, -, hexited⟩, -⟩ := lifecycle hrun (show [7, 8].Nodup by decide)
  exact ⟨_, _, hrun, rfl, rfl, hexited rfl, rfl⟩

end Pwatch.Watch
