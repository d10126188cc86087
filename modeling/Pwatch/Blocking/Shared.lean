import Pwatch.Blocking.Capacity
import Pwatch.Runs.Parts

/-!
# Jobs that share a state

The jobs of the blocking pool may act on something that all of them share and that others
change too.  A job does one thing to it at most, at some moment while it runs, and fails or
returns what came of it.  The caller may be told of a timeout before that moment, and the
job may panic before or after it.

What a job does, and what it is done to, are parameters.  Whatever the order of the callers,
the workers and the others, a call touches the state once at most (`length_effects_le`), and
a call that is answered with a result has it from there (`applied_of_answered`), between its
admission and its answer (`exists_applied_behind`).
-/

namespace Pwatch.Blocking

variable {σ ω α : Type}

/-- Where the job of a call stands. -/
inductive Progress (ω α : Type)
  | /-- There is none. -/
    absent
  | asked (op : ω)
  | done (op : ω) (result : Except Str α)

/-- The pool, what its jobs share, and the jobs. -/
structure Shared (σ ω α : Type) where
  pool : Pool α
  state : σ
  jobs : Nat → Progress ω α

namespace Shared

def initial (state : σ) : Shared σ ω α where
  pool := .initial
  state
  jobs := fun _ ↦ .absent

inductive Event (σ ω α : Type)
  | admitted (r : Nat) (op : ω)
  | exhausted (r : Nat)
  | /-- A job fails before it has touched the state. -/
    failed (r : Nat) (message : Str)
  | /-- A job does what it was asked for, with this result. -/
    applied (r : Nat) (op : ω) (result : Except Str α)
  | returned (r : Nat) (result : Except Str α)
  | /-- A worker begins or panics, or a caller is answered or gives up. -/
    pool (e : Pool.Event α)
  | /-- Somebody else changes the state. -/
    changed (old new : σ)

/-- The events of the pool that the jobs do not take part in. -/
def Apart : Pool.Event α → Prop
  | .executed _ | .panicked _ _ | .answered _ _ | .dropped _ => True
  | .admitted _ | .refused _ | .returned _ _ => False

/-- The action of the pool. -/
@[simp] def Event.ofPool : Event σ ω α → Option (Pool.Event α)
  | .admitted r _ => some (.admitted r)
  | .exhausted r => some (.refused r)
  | .returned r result => some (.returned r result)
  | .pool e => some e
  | .failed _ _ | .applied _ _ _ | .changed _ _ => none

variable (effect : σ → ω → Except Str α → σ → Prop)

inductive Step : Shared σ ω α → Event σ ω α → Shared σ ω α → Prop
  | enter {s : Shared σ ω α} {r : Nat} {op : ω} {pool : Pool α} :
      Pool.Step s.pool (.admitted r) pool →
      Step s (.admitted r op)
        { s with pool, jobs := Function.update s.jobs r (.asked op) }
  | exhaust {s : Shared σ ω α} {r : Nat} {pool : Pool α} :
      Pool.Step s.pool (.refused r) pool → Step s (.exhausted r) { s with pool }
  | fail {s : Shared σ ω α} {r : Nat} {op : ω} {message : Str} :
      (s.pool.calls r).task = .running → s.jobs r = .asked op →
      Step s (.failed r message)
        { s with jobs := Function.update s.jobs r (.done op (.error message)) }
  | apply {s : Shared σ ω α} {r : Nat} {op : ω} {result : Except Str α} {state : σ} :
      (s.pool.calls r).task = .running → s.jobs r = .asked op →
      effect s.state op result state →
      Step s (.applied r op result)
        { s with state, jobs := Function.update s.jobs r (.done op result) }
  | finish {s : Shared σ ω α} {r : Nat} {op : ω} {result : Except Str α} {pool : Pool α} :
      s.jobs r = .done op result → Pool.Step s.pool (.returned r result) pool →
      Step s (.returned r result) { s with pool }
  | pool {s : Shared σ ω α} {e : Pool.Event α} {pool : Pool α} :
      Apart e → Pool.Step s.pool e pool → Step s (.pool e) { s with pool }
  | change {s : Shared σ ω α} {state : σ} : Step s (.changed s.state state) { s with state }

/-! ## What a history says -/

/-- What a call does to the state at an event. -/
@[simp] def Event.appliedFor (r : Nat) : Event σ ω α → Option (ω × Except Str α)
  | .applied r' op result => if r' = r then some (op, result) else none
  | _ => none

/-- What a call did to the state. -/
def effects (r : Nat) (es : List (Event σ ω α)) : List (ω × Except Str α) :=
  es.filterMap (Event.appliedFor r)

@[simp] theorem effects_snoc (r : Nat) (es : List (Event σ ω α)) (e : Event σ ω α) :
    effects r (es ++ [e]) = effects r es ++ (e.appliedFor r).toList :=
  filterMap_snoc _ es e

theorem mem_effects {r : Nat} {es : List (Event σ ω α)} {op : ω} {result : Except Str α} :
    (op, result) ∈ effects r es ↔ .applied r op result ∈ es := by
  rw [effects, List.mem_filterMap]
  constructor
  · rintro ⟨e, he, heffect⟩
    cases e with
    | applied r' op' result' =>
        obtain ⟨rfl, hsame⟩ := Option.ite_none_right_eq_some.mp heffect
        cases hsame
        exact he
    | _ => cases heffect
  · exact fun he ↦ ⟨_, he, if_pos rfl⟩

/-- The actions of the pool. -/
def poolEvents (es : List (Event σ ω α)) : List (Pool.Event α) := es.filterMap Event.ofPool

variable {effect} {es : List (Event σ ω α)} {e : Event σ ω α} {s t : Shared σ ω α} {r : Nat}

theorem Step.pool_takes (h : Step effect s e t) : Takes Pool.Step s.pool e.ofPool t.pool := by
  cases h with
  | enter hstep | exhaust hstep | finish _ hstep | pool _ hstep => exact .acts hstep
  | fail | apply | change => exact .idle

theorem run_pool (hrun : Run (Step effect) s es t) :
    Run Pool.Step s.pool (poolEvents es) t.pool :=
  hrun.part fun _ _ _ h ↦ h.pool_takes

/-! ## The invariant -/

/-- What the history says about a job. -/
structure JobHistory (es : List (Event σ ω α)) (r : Nat) (task : Task α)
    (job : Progress ω α) : Prop where
  begun : task = .absent → job = .absent
  returned : ∀ result, task = .returned result → ∃ op, job = .done op result
  absent : job = .absent → effects r es = []
  admitted : ∀ op, .admitted r op ∈ es → job = .asked op ∨ ∃ result, job = .done op result
  asked : ∀ op, job = .asked op → .admitted r op ∈ es ∧ effects r es = []
  done : ∀ op result, job = .done op result → .admitted r op ∈ es ∧
    (effects r es = [(op, result)] ∨ effects r es = [] ∧ ∃ message, result = .error message)

/-- A job that does nothing, whatever its caller does. -/
theorem JobHistory.frame {task task' : Task α} {job : Progress ω α}
    (h : JobHistory es r task job) (he : e.appliedFor r = none) (hother : ∀ op, e ≠ .admitted r op)
    (hbegun : task' = .absent → task = .absent)
    (hreturned : ∀ result, task' = .returned result → ∃ op, job = .done op result) :
    JobHistory (es ++ [e]) r task' job := by
  have heffects : effects r (es ++ [e]) = effects r es := by
    rw [effects_snoc, he, Option.toList_none, List.append_nil]
  exact {
    begun := fun htask ↦ h.begun (hbegun htask)
    returned := hreturned
    absent := fun hjob ↦ heffects.trans (h.absent hjob)
    admitted := fun op hop ↦ by
      rw [List.mem_append, List.mem_singleton, or_iff_left (hother op).symm] at hop
      exact h.admitted op hop
    asked := fun op hjob ↦
      ⟨List.mem_append_left _ (h.asked op hjob).1, heffects.trans (h.asked op hjob).2⟩
    done := fun op result hjob ↦ by
      rw [heffects]
      exact ⟨List.mem_append_left _ (h.done op result hjob).1, (h.done op result hjob).2⟩ }

/-- A job is asked for what it was admitted for. -/
theorem JobHistory.op_eq {task : Task α} {job : Progress ω α} (h : JobHistory es r task job)
    {op op' : ω} (hjob : job = .asked op) (hop : .admitted r op' ∈ es) : op' = op := by
  rcases h.admitted op' hop with heq | ⟨result, heq⟩
  · exact Progress.asked.inj (heq.symm.trans hjob)
  · cases heq.symm.trans hjob

/-- No event brings a task back, and those of the pool alone let none return. -/
theorem task_of_apart {pool pool' : Pool α} {e : Pool.Event α} (h : Pool.Step pool e pool')
    (he : Apart e) (r : Nat) :
    ((pool'.calls r).task = .absent → (pool.calls r).task = .absent) ∧
      ∀ result, (pool'.calls r).task = .returned result →
        (pool.calls r).task = .returned result := by
  by_cases hr : r = e.call
  · subst hr
    cases h with
    | accept | refuse | finish => exact he.elim
    | execute | panic | answer | answerPanic | timeOut | drop => simp [Pool.Event.call]
  · rw [h.calls_of_ne hr]
    exact ⟨id, fun _ ↦ id⟩

/-- **The step lemma.** -/
theorem JobHistory.step (hpool : Pool.Accounts (poolEvents es) s.pool)
    (h : ∀ r, JobHistory es r (s.pool.calls r).task (s.jobs r)) (hstep : Step effect s e t)
    (r : Nat) : JobHistory (es ++ [e]) r (t.pool.calls r).task (t.jobs r) := by
  cases hstep with
  | @enter r' op pool hstep =>
      by_cases hr : r = r'
      · subst hr
        have habsent : s.jobs r = .absent := by
          cases hstep with
          | accept hidle => exact (h r).begun ((hpool.calls r).idle hidle)
        have htask : (pool.calls r).task = .spawned := by
          cases hstep with
          | accept => simp
        have heffects := (h r).absent habsent
        simp only [Function.update_self, htask]
        exact {
          begun := fun hno ↦ by cases hno
          returned := fun _ hno ↦ by cases hno
          absent := fun hno ↦ by cases hno
          admitted := fun op' hop ↦ by
            rcases List.mem_append.mp hop with hop | hop
            · have hjob := (h r).admitted op' hop
              rw [habsent] at hjob
              rcases hjob with hjob | ⟨result, hjob⟩ <;> cases hjob
            · cases List.mem_singleton.mp hop
              exact .inl rfl
          asked := fun op' hop ↦ by
            obtain rfl := Progress.asked.inj hop
            simp [heffects]
          done := fun _ _ hno ↦ by cases hno }
      · simp only [Function.update_of_ne hr, hstep.calls_of_ne hr]
        refine (h r).frame rfl (fun op' heq ↦ ?_) id (h r).returned
        exact hr (Event.admitted.inj heq).1.symm
  | @exhaust r' pool hstep =>
      have htask : (pool.calls r).task = (s.pool.calls r).task := by
        by_cases hr : r = r'
        · subst hr
          cases hstep with
          | refuse => simp
        · rw [hstep.calls_of_ne hr]
      simp only [htask]
      exact (h r).frame rfl (by simp) id (h r).returned
  | @fail r' op message hrunning hjob =>
      by_cases hr : r = r'
      · subst hr
        obtain ⟨hadmitted, heffects⟩ := (h r).asked op hjob
        simp only [Function.update_self, hrunning]
        exact {
          begun := fun hno ↦ by cases hno
          returned := fun _ hno ↦ by cases hno
          absent := fun hno ↦ by cases hno
          admitted := fun op' hop ↦ by
            have hsame : op' = op := (h r).op_eq hjob (by simpa using hop)
            exact .inr ⟨_, by rw [hsame]⟩
          asked := fun _ hno ↦ by cases hno
          done := fun op' result hop ↦ by
            obtain ⟨rfl, rfl⟩ := Progress.done.inj hop
            refine ⟨List.mem_append_left _ hadmitted, .inr ⟨by simp [heffects], message, rfl⟩⟩ }
      · simp only [Function.update_of_ne hr]
        exact (h r).frame rfl (by simp) id (h r).returned
  | @apply r' op result state hrunning hjob heffect =>
      by_cases hr : r = r'
      · subst hr
        obtain ⟨hadmitted, heffects⟩ := (h r).asked op hjob
        simp only [Function.update_self, hrunning]
        exact {
          begun := fun hno ↦ by cases hno
          returned := fun _ hno ↦ by cases hno
          absent := fun hno ↦ by cases hno
          admitted := fun op' hop ↦ by
            have hsame : op' = op := (h r).op_eq hjob (by simpa using hop)
            exact .inr ⟨_, by rw [hsame]⟩
          asked := fun _ hno ↦ by cases hno
          done := fun op' result' hop ↦ by
            obtain ⟨rfl, rfl⟩ := Progress.done.inj hop
            exact ⟨List.mem_append_left _ hadmitted, .inl (by simp [heffects])⟩ }
      · simp only [Function.update_of_ne hr]
        exact (h r).frame (if_neg (Ne.symm hr)) (by simp) id (h r).returned
  | @finish r' op result pool hjob hstep =>
      by_cases hr : r = r'
      · subst hr
        have htask : (pool.calls r).task = .returned result := by
          cases hstep with
          | finish => simp
        simp only [htask]
        refine (h r).frame rfl (by simp) (fun hno ↦ by cases hno) fun result' heq ↦ ⟨op, ?_⟩
        obtain rfl := Task.returned.inj heq
        exact hjob
      · simp only [hstep.calls_of_ne hr]
        exact (h r).frame rfl (by simp) id (h r).returned
  | pool he hstep =>
      obtain ⟨habsent, hreturned⟩ := task_of_apart hstep he r
      exact (h r).frame rfl (by simp) habsent
        fun result heq ↦ (h r).returned result (hreturned result heq)
  | change => exact (h r).frame rfl (by simp) id (h r).returned

/-- **The run lemma.** -/
theorem jobHistory {state : σ} (hrun : Run (Step effect) (initial state) es s) (r : Nat) :
    JobHistory es r (s.pool.calls r).task (s.jobs r) := by
  induction hrun generalizing r with
  | nil => constructor <;> simp [initial, Pool.initial, effects]
  | snoc hes hstep ih => exact JobHistory.step (Pool.accounts (run_pool hes)) ih hstep r

/-! ## Reading the invariant -/

/-- A call touches the state once at most. -/
theorem length_effects_le {state : σ} (hrun : Run (Step effect) (initial state) es s) (r : Nat) :
    (effects r es).length ≤ 1 := by
  have h := jobHistory hrun r
  cases hjob : s.jobs r with
  | absent => simp [h.absent hjob]
  | asked op => simp [(h.asked op hjob).2]
  | done op result =>
      rcases (h.done op result hjob).2 with heq | ⟨heq, -⟩ <;> simp [heq]

/-- A call that was turned away never touches the state. -/
theorem effects_of_exhausted {state : σ} (hrun : Run (Step effect) (initial state) es s)
    (hexhausted : .exhausted r ∈ es) : effects r es = [] := by
  have h := jobHistory hrun r
  have hrefused : .refused r ∈ poolEvents es :=
    List.mem_filterMap.mpr ⟨.exhausted r, hexhausted, rfl⟩
  exact h.absent (h.begun (((Pool.accounts (run_pool hrun)).calls r).refused hrefused).2)

/-- Who is answered with a result has a task that has returned it. -/
theorem task_of_answered {pool pool' : Pool α} {body : α}
    (h : Pool.Step pool (.answered r (.ok body)) pool') :
    (pool.calls r).task = .returned (.ok body) := by
  generalize hanswer : (.ok body : Except Failure α) = answer at h
  cases h with
  | answer hwaiting htask =>
      rename_i result
      cases result with
      | error message => cases hanswer
      | ok body' =>
          obtain rfl := Except.ok.inj hanswer
          exact htask
  | answerPanic | timeOut => cases hanswer

/-- What a call did to the state it did at a step, behind its admission. -/
theorem exists_admitted {state : σ} {op : ω} {result : Except Str α}
    (hrun : Run (Step effect) (initial state) es s) (happlied : .applied r op result ∈ es) :
    ∃ before middle rest t u, es = (before ++ .admitted r op :: middle) ++
        .applied r op result :: rest ∧
      Run (Step effect) (initial state) (before ++ .admitted r op :: middle) t ∧
      Step effect t (.applied r op result) u ∧ Run (Step effect) u rest s := by
  obtain ⟨first, rest, rfl⟩ := List.append_of_mem happlied
  obtain ⟨t, u, ht, hstep, hu⟩ := hrun.split_event
  have hjob : t.jobs r = .asked op := by
    cases hstep with
    | apply _ hjob _ => exact hjob
  obtain ⟨before, middle, rfl⟩ := List.append_of_mem ((jobHistory ht r).asked op hjob).1
  exact ⟨before, middle, rest, t, u, rfl, ht, hstep, hu⟩

/-- A step at which a call does something to the state. -/
theorem Step.effect_of_applied {op : ω} {result : Except Str α}
    (h : Step effect s (.applied r op result) t) : effect s.state op result t.state := by
  cases h with
  | apply _ _ heffect => exact heffect

/-- **An answer with a result** comes from what the call did to the state. -/
theorem applied_of_answered {state : σ} {body : α} {pool : Pool α}
    (hrun : Run (Step effect) (initial state) es s)
    (hanswer : Pool.Step s.pool (.answered r (.ok body)) pool) :
    ∃ op, .applied r op (.ok body) ∈ es := by
  have h := jobHistory hrun r
  obtain ⟨op, hjob⟩ := h.returned _ (task_of_answered hanswer)
  rcases (h.done op _ hjob).2 with heq | ⟨-, message, herror⟩
  · exact ⟨op, mem_effects.mp (heq ▸ List.mem_singleton_self _)⟩
  · cases herror

/-- A call is admitted for one thing. -/
theorem op_unique {state : σ} {op op' : ω} (hrun : Run (Step effect) (initial state) es s)
    (hop : .admitted r op ∈ es) (hop' : .admitted r op' ∈ es) : op = op' := by
  have h := jobHistory hrun r
  rcases h.admitted op hop with hjob | ⟨result, hjob⟩ <;>
    rcases h.admitted op' hop' with hjob' | ⟨result', hjob'⟩ <;> cases hjob.symm.trans hjob' <;> rfl

/-- A call has done nothing before its admission. -/
theorem not_applied_before {state : σ} {op op' : ω} {result : Except Str α}
    (hrun : Run (Step effect) (initial state) es s) (hadmitted : Step effect s (.admitted r op) t) :
    .applied r op' result ∉ es := by
  intro hmem
  have h := jobHistory hrun r
  cases hadmitted with
  | enter hstep =>
      cases hstep with
      | accept hidle =>
          have habsent := ((Pool.accounts (run_pool hrun)).calls r).idle hidle
          have hnone := h.absent (h.begun habsent)
          rw [← mem_effects, hnone] at hmem
          cases hmem

/-- **An answer with a result** comes from what the call did behind its admission. -/
theorem exists_applied_behind {state : σ} {op : ω} {body : α} {pool : Pool α}
    {before after : List (Event σ ω α)}
    (hrun : Run (Step effect) (initial state) (before ++ .admitted r op :: after) s)
    (hanswer : Pool.Step s.pool (.answered r (.ok body)) pool) :
    ∃ middle rest, after = middle ++ .applied r op (.ok body) :: rest := by
  obtain ⟨op', hmem⟩ := applied_of_answered hrun hanswer
  obtain ⟨first, middle, rest, t, u, heq, -⟩ := exists_admitted hrun hmem
  obtain rfl : op = op' := op_unique (r := r) hrun (by simp) (by rw [heq]; simp)
  obtain ⟨v, w, hv, hadmitted, -⟩ := hrun.split_event
  rcases List.mem_append.mp hmem with hmem | hmem
  · exact absurd hmem (not_applied_before hv hadmitted)
  · rcases List.mem_cons.mp hmem with hmem | hmem
    · cases hmem
    · exact List.append_of_mem hmem

/-- What all that touches the state keeps is kept. -/
theorem state_invariant {P : σ → Prop} (hrun : Run (Step effect) s es t) (hs : P s.state)
    (happlied : ∀ r op result, .applied r op result ∈ es → ∀ m m', effect m op result m' →
      P m → P m')
    (hchanged : ∀ m m', .changed m m' ∈ es → P m → P m') : P t.state := by
  induction hrun with
  | nil => exact hs
  | @snoc es t u e _ hstep ih =>
      have ht := ih (fun r op result hmem ↦ happlied r op result (List.mem_append_left _ hmem))
        fun m m' hmem ↦ hchanged m m' (List.mem_append_left _ hmem)
      cases hstep with
      | apply _ _ heffect =>
          exact happlied _ _ _ (List.mem_append_right _ (List.mem_singleton_self _)) _ _ heffect ht
      | change =>
          exact hchanged _ _ (List.mem_append_right _ (List.mem_singleton_self _)) ht
      | enter | exhaust | fail | finish | pool => exact ht

/-- The events of a call that nobody gets in the way of, up to its answer. -/
def callEvents (r : Nat) (op : ω) (body : α) : List (Event σ ω α) :=
  [.admitted r op, .pool (.executed r), .applied r op (.ok body), .returned r (.ok body)]

/-- **A call that finds a slot** can run and is answered, whatever the others are at. -/
theorem exists_run_call {op : ω} {body : α} {state : σ}
    (hidle : s.pool.calls r = ⟨.idle, .absent⟩) (hfree : 0 < s.pool.free)
    (heffect : effect s.state op (.ok body) state) :
    ∃ t u, Run (Step effect) s (callEvents r op body) t ∧
      Step effect t (.pool (.answered r (.ok body))) u ∧ u.state = state ∧
      u.pool.free = s.pool.free ∧ ∀ r', r' ≠ r → u.pool.calls r' = s.pool.calls r' := by
  let p₁ := (s.pool.acquire r).setCall r .waiting .spawned
  let p₂ := p₁.setCall r .waiting .running
  let p₃ := (p₂.release r).setCall r .waiting (.returned (.ok body))
  let p₄ := p₃.setCall r (.answered (.ok body)) (.returned (.ok body))
  let j₁ := Function.update s.jobs r (.asked op)
  let j₂ := Function.update j₁ r (.done op (.ok body))
  have hcall₁ : p₁.calls r = ⟨.waiting, .spawned⟩ := Pool.setCall_self ..
  have hcall₂ : p₂.calls r = ⟨.waiting, .running⟩ := Pool.setCall_self ..
  have hcall₃ : p₃.calls r = ⟨.waiting, .returned (.ok body)⟩ := Pool.setCall_self ..
  have h₁ : Pool.Step s.pool (.admitted r) p₁ := .accept (by rw [hidle]) hfree
  have h₂ : Pool.Step p₁ (.executed r) p₂ := by
    have h := @Pool.Step.execute α p₁ r (by rw [hcall₁])
    rwa [hcall₁] at h
  have h₃ : Pool.Step p₂ (.returned r (.ok body)) p₃ := by
    have h := @Pool.Step.finish α p₂ r (.ok body) (by rw [hcall₂])
    rwa [hcall₂] at h
  have h₄ : Pool.Step p₃ (.answered r (.ok body)) p₄ := by
    have h := @Pool.Step.answer α p₃ r (.ok body) (by rw [hcall₃]) (by rw [hcall₃])
    rwa [hcall₃] at h
  have k₁ : Step effect s (.admitted r op) ⟨p₁, s.state, j₁⟩ := .enter h₁
  have k₂ : Step effect ⟨p₁, s.state, j₁⟩ (.pool (.executed r)) ⟨p₂, s.state, j₁⟩ :=
    .pool trivial h₂
  have k₃ : Step effect ⟨p₂, s.state, j₁⟩ (.applied r op (.ok body)) ⟨p₂, state, j₂⟩ :=
    .apply (congrArg Call.task hcall₂) (Function.update_self ..) heffect
  have k₄ : Step effect ⟨p₂, state, j₂⟩ (.returned r (.ok body)) ⟨p₃, state, j₂⟩ :=
    .finish (Function.update_self ..) h₃
  have k₅ : Step effect ⟨p₃, state, j₂⟩ (.pool (.answered r (.ok body))) ⟨p₄, state, j₂⟩ :=
    .pool trivial h₄
  refine ⟨⟨p₃, state, j₂⟩, ⟨p₄, state, j₂⟩, .cons k₁ (.cons k₂ (.cons k₃ (.single k₄))), k₅, rfl,
    ?_, fun r' hr' ↦ ?_⟩
  · change s.pool.free - 1 + 1 = s.pool.free
    omega
  · simp [p₄, p₃, p₂, p₁, hr', Pool.release, Pool.acquire]

end Shared

end Pwatch.Blocking
