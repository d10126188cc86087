import Pwatch.Server.Breakpoints

/-!
# The ledger of the registry

What a history of requests says about the ids: which were reserved, inserted, removed
and answered 204 (`Ledger`), and how the state at its end agrees with that
(`Registered`).  Each kind of step has its own lemma; `registered` puts them together
along a run.
-/

namespace Pwatch.Server

variable {arch : Arch}

/-! ## Histories -/

namespace Event

/-- The id reserved at an event. -/
@[simp] def numberedId : Event → Option UInt64
  | .numbered _ id => some id
  | _ => none

/-- The id inserted at an event. -/
@[simp] def insertedId : Event → Option UInt64
  | .inserted _ id _ => some id
  | _ => none

/-- The id removed at an event. -/
@[simp] def removedId : Event → Option UInt64
  | .removed _ id _ => some id
  | _ => none

/-- The id whose removal is answered at an event. -/
@[simp] def noContentId : Event → Option UInt64
  | .noContent _ id => some id
  | _ => none

end Event

/-- The ids of a history, each list in order. -/
structure Ledger where
  numbered : List UInt64
  inserted : List UInt64
  removed : List UInt64
  noContent : List UInt64

/-- The ledger of a history. -/
def ledger (es : List Event) : Ledger where
  numbered := es.filterMap Event.numberedId
  inserted := es.filterMap Event.insertedId
  removed := es.filterMap Event.removedId
  noContent := es.filterMap Event.noContentId

/-- One more event in the ledger. -/
theorem ledger_snoc (es : List Event) (e : Event) :
    ledger (es ++ [e]) =
      { numbered := (ledger es).numbered ++ e.numberedId.toList
        inserted := (ledger es).inserted ++ e.insertedId.toList
        removed := (ledger es).removed ++ e.removedId.toList
        noContent := (ledger es).noContent ++ e.noContentId.toList } := by
  simp only [ledger, filterMap_snoc]

/-- Most events are not in the ledger. -/
theorem ledger_snoc_of_none {es : List Event} {e : Event} (hnumbered : e.numberedId = none)
    (hinserted : e.insertedId = none) (hremoved : e.removedId = none)
    (hnoContent : e.noContentId = none) : ledger (es ++ [e]) = ledger es := by
  rw [ledger_snoc, hnumbered, hinserted, hremoved, hnoContent]
  simp only [Option.toList_none, List.append_nil]

theorem ledger_numbered (es : List Event) (r : Nat) (id : UInt64) :
    ledger (es ++ [.numbered r id]) =
      { ledger es with numbered := (ledger es).numbered ++ [id] } := by
  simp [ledger_snoc]

theorem ledger_inserted (es : List Event) (r : Nat) (id : UInt64)
    (replaced : Option BreakpointEntry) :
    ledger (es ++ [.inserted r id replaced]) =
      { ledger es with inserted := (ledger es).inserted ++ [id] } := by
  simp [ledger_snoc]

theorem ledger_removed (es : List Event) (d : Nat) (id : UInt64) (watch : Nat) :
    ledger (es ++ [.removed d id watch]) =
      { ledger es with removed := (ledger es).removed ++ [id] } := by
  simp [ledger_snoc]

theorem ledger_noContent (es : List Event) (d : Nat) (id : UInt64) :
    ledger (es ++ [.noContent d id]) =
      { ledger es with noContent := (ledger es).noContent ++ [id] } := by
  simp [ledger_snoc]

/-! ## The invariant -/

/-- The watch of a create that has not inserted its entry. -/
structure Unlisted (inserted : List UInt64) (l : Launched) : Prop where
  not_inserted : l.id ∉ inserted
  not_cancelled : l.watch.cancel = false

/-- What the ledger says about a create in each phase. -/
def CreateOk (inserted : List UInt64) (c : Create) : Prop :=
  match c.phase with
  | .idle | .admitted _ | .resolving _ _ | .filtering _ _ _ | .numbering _ _ => c.launched = none
  | .launching _ => ∃ l, c.launched = some l ∧ Unlisted inserted l
  | .locking view | .inserting view =>
      ∃ l, c.launched = some l ∧ view.id = l.id ∧ Unlisted inserted l ∧ l.watch.phase.Started
  | .done (.ok view) => ∃ l, c.launched = some l ∧ view.id = l.id ∧ l.id ∈ inserted
  | .done (.error _) => ∀ l, c.launched = some l → l.id ∉ inserted

/-- The watch with this id, started by request `r`. -/
def Watches (s : Registry) (r : Nat) (id : UInt64) (ok : Watch.State → Prop) : Prop :=
  ∃ l, (s.creates r).launched = some l ∧ l.id = id ∧ ok l.watch

/-- The id a delete has removed and not yet answered for. -/
def DeletePhase.inFlight : DeletePhase → Option UInt64
  | .stopping id _ | .stopped id => some id
  | _ => none

/-- What the ledger says about a delete in each phase. -/
def DeleteOk (s : Registry) : DeletePhase → Prop
  | .stopping id r => Watches s r id fun w ↦ w.phase.Started
  | .stopped id => ∃ r, Watches s r id fun w ↦ w.cancel = true
  | _ => True

/-- The id a create holds. -/
def Registry.idOf (s : Registry) (r : Nat) : Option UInt64 :=
  (s.creates r).launched.map fun l ↦ l.id

/-- **The invariant of the registry.** -/
structure Registered (L : Ledger) (s : Registry) : Prop where
  next_eq : s.nextBreakpointId = UInt64.ofNat (L.numbered.length + 1)
  id_le : ∀ r id, s.idOf r = some id → id.toNat ≤ L.numbered.length
  id_inj : ∀ r r' id, s.idOf r = some id → s.idOf r' = some id → r = r'
  create_ok : ∀ r, CreateOk L.inserted (s.creates r)
  entry_ok : ∀ id entry, s.breakpoints.lookup id = some entry →
    entry.view.id = id ∧ Watches s entry.watch id fun w ↦ w.cancel = false ∧ w.phase.Started
  keys_iff : ∀ id, id ∈ s.breakpoints ↔ id ∈ L.inserted ∧ id ∉ L.removed
  inserted_ok : ∀ id ∈ L.inserted, ∃ r, s.idOf r = some id
  inserted_nodup : L.inserted.Nodup
  removed_nodup : L.removed.Nodup
  removed_sub : L.removed ⊆ L.inserted
  delete_ok : ∀ d, DeleteOk s (s.deletes d)
  inFlight_ok : ∀ d id, (s.deletes d).inFlight = some id → id ∈ L.removed ∧ id ∉ L.noContent
  inFlight_inj : ∀ d d' id, (s.deletes d).inFlight = some id → (s.deletes d').inFlight = some id →
    d = d'
  noContent_nodup : L.noContent.Nodup
  noContent_ok : ∀ id ∈ L.noContent, id ∈ L.removed ∧ ∃ r, Watches s r id fun w ↦ w.cancel = true

theorem Watches.mono {s s' : Registry} {r : Nat} {id : UInt64} {ok : Watch.State → Prop}
    (h : Watches s r id ok) (hs : (s.creates r).launched = (s'.creates r).launched) :
    Watches s' r id ok := by
  obtain ⟨l, hl, hw⟩ := h
  exact ⟨l, hs ▸ hl, hw⟩

theorem DeleteOk.mono {s s' : Registry} {p : DeletePhase} (h : DeleteOk s p)
    (hstarted : ∀ r id, (Watches s r id fun w ↦ w.phase.Started) →
      Watches s' r id fun w ↦ w.phase.Started)
    (hcancel : ∀ r id, (Watches s r id fun w ↦ w.cancel = true) →
      Watches s' r id fun w ↦ w.cancel = true) : DeleteOk s' p := by
  cases p with
  | stopping id r => exact hstarted r id h
  | stopped id =>
      obtain ⟨r, hw⟩ := h
      exact ⟨r, hcancel r id hw⟩
  | idle | missing id => trivial

theorem registered_initial : Registered (ledger []) Registry.initial where
  next_eq := rfl
  id_le := by simp [Registry.idOf, Registry.initial]
  id_inj := by simp [Registry.idOf, Registry.initial]
  create_ok _ := rfl
  entry_ok := by simp [Registry.initial]
  keys_iff := by simp [Registry.initial, ledger]
  inserted_ok := by simp [ledger]
  inserted_nodup := .nil
  removed_nodup := .nil
  removed_sub := List.Subset.refl _
  delete_ok _ := trivial
  inFlight_ok := by simp [Registry.initial, DeletePhase.inFlight]
  inFlight_inj := by simp [Registry.initial, DeletePhase.inFlight]
  noContent_nodup := .nil
  noContent_ok := by simp [ledger]

/-! ## Steps that are not in the ledger -/

variable {L : Ledger} {s : Registry}

theorem Registered.lock (h : Registered L s) (lock : Holder) :
    Registered L { s with lock } := { h with }

/-- The watch goes on: same id, same cancel flag. -/
structure Continues (l l' : Launched) : Prop where
  id_eq : l'.id = l.id
  cancel_eq : l'.watch.cancel = l.watch.cancel
  started : l.watch.phase.Started → l'.watch.phase.Started

theorem Continues.refl (l : Launched) : Continues l l := ⟨rfl, rfl, id⟩

theorem continues_refl (l : Option Launched) : Option.Rel Continues l l := by
  cases l with
  | none => exact .none
  | some l => exact .some (.refl l)

theorem Continues.of_step {l : Launched} {e : Watch.Event} {w : Watch.State}
    (h : Watch.Step l.config l.watch e w) (he : e ≠ .stop) :
    Continues l { l with watch := w } :=
  ⟨rfl, h.cancel_eq he, h.started⟩

theorem Unlisted.continues {inserted : List UInt64} {l l' : Launched} (h : Unlisted inserted l)
    (hl : Continues l l') : Unlisted inserted l' :=
  ⟨hl.id_eq ▸ h.not_inserted, hl.cancel_eq.trans h.not_cancelled⟩

theorem map_id_of_continues {l l' : Option Launched} (h : Option.Rel Continues l l') :
    l'.map (fun l ↦ l.id) = l.map fun l ↦ l.id := by
  cases h with
  | none => rfl
  | some hl => exact congrArg some hl.id_eq

theorem idOf_setCreate {r : Nat} {c : Create}
    (hc : Option.Rel Continues (s.creates r).launched c.launched) (r' : Nat) :
    (s.setCreate r c).idOf r' = s.idOf r' := by
  unfold Registry.idOf
  by_cases hr : r' = r
  · subst hr
    rw [Registry.setCreate_creates_self]
    exact map_id_of_continues hc
  · rw [Registry.setCreate_creates_of_ne _ _ _ hr]

theorem Watches.setCreate {r r' : Nat} {c : Create} {id : UInt64} {ok : Watch.State → Prop}
    (h : Watches s r' id ok) (hc : Option.Rel Continues (s.creates r).launched c.launched)
    (hok : ∀ l l', Continues l l' → ok l.watch → ok l'.watch) :
    Watches (s.setCreate r c) r' id ok := by
  obtain ⟨l, hl, hid, hw⟩ := h
  by_cases hr : r' = r
  · subst hr
    rw [hl] at hc
    cases hc' : c.launched with
    | none => rw [hc'] at hc; cases hc
    | some l' =>
        rw [hc'] at hc
        cases hc with
        | some hcont =>
            refine ⟨l', ?_, hcont.id_eq.trans hid, hok l l' hcont hw⟩
            rw [Registry.setCreate_creates_self, hc']
  · exact ⟨l, by rw [Registry.setCreate_creates_of_ne _ _ _ hr, hl], hid, hw⟩

/-- A create goes on. -/
theorem Registered.setCreate (h : Registered L s) {r : Nat} {c : Create}
    (hc : Option.Rel Continues (s.creates r).launched c.launched) (hok : CreateOk L.inserted c) :
    Registered L (s.setCreate r c) where
  next_eq := h.next_eq
  id_le r' id := by
    rw [idOf_setCreate hc]
    exact h.id_le r' id
  id_inj r₁ r₂ id := by
    rw [idOf_setCreate hc, idOf_setCreate hc]
    exact h.id_inj r₁ r₂ id
  create_ok := s.forall_setCreate r c hok h.create_ok
  entry_ok id entry hentry := by
    obtain ⟨hid, hw⟩ := h.entry_ok id entry hentry
    exact ⟨hid, hw.setCreate hc fun l l' hl hw ↦ ⟨hl.cancel_eq.trans hw.1, hl.started hw.2⟩⟩
  keys_iff := h.keys_iff
  inserted_ok id hid := by
    obtain ⟨r', hr'⟩ := h.inserted_ok id hid
    exact ⟨r', (idOf_setCreate hc r').trans hr'⟩
  inserted_nodup := h.inserted_nodup
  removed_nodup := h.removed_nodup
  removed_sub := h.removed_sub
  delete_ok d := (h.delete_ok d).mono
    (fun _ _ hw ↦ hw.setCreate hc fun _ _ hl hw ↦ hl.started hw)
    (fun _ _ hw ↦ hw.setCreate hc fun _ _ hl hw ↦ hl.cancel_eq.trans hw)
  inFlight_ok := h.inFlight_ok
  inFlight_inj := h.inFlight_inj
  noContent_nodup := h.noContent_nodup
  noContent_ok id hid := by
    obtain ⟨hremoved, r', hw⟩ := h.noContent_ok id hid
    exact ⟨hremoved, r', hw.setCreate hc fun _ _ hl hw ↦ hl.cancel_eq.trans hw⟩

/-- A delete that was in flight with nothing, or has nothing left to do. -/
theorem Registered.setDelete (h : Registered L s) (d : Nat) {p : DeletePhase}
    (hp : p.inFlight = none) : Registered L (s.setDelete d p) := by
  have hflight : ∀ d' id, ((s.setDelete d p).deletes d').inFlight = some id →
      (s.deletes d').inFlight = some id := by
    intro d' id hd'
    rcases s.setDelete_cases d p (P := fun q ↦ q.inFlight = some id) hd' with ⟨-, hd⟩ | ⟨-, hd⟩
    · cases hp.symm.trans hd
    · exact hd
  exact { h with
    delete_ok := fun d' ↦ by
      by_cases hd : d' = d
      · subst hd
        rw [Registry.setDelete_deletes_self]
        cases p with
        | stopping id r | stopped id => cases hp
        | idle | missing id => trivial
      · rw [Registry.setDelete_deletes_of_ne _ _ _ hd]
        exact (h.delete_ok d').mono (fun _ _ hw ↦ hw) (fun _ _ hw ↦ hw)
    inFlight_ok := fun d' id hd' ↦ h.inFlight_ok d' id (hflight d' id hd')
    inFlight_inj := fun d₁ d₂ id h₁ h₂ ↦
      h.inFlight_inj d₁ d₂ id (hflight d₁ id h₁) (hflight d₂ id h₂) }

/-! ## Steps that are in the ledger -/

/-- A new value keeps the indices of the values apart. -/
theorem inj_of_fresh {f g : Nat → Option UInt64} {i : Nat} {a : UInt64}
    (hinj : ∀ j k b, f j = some b → f k = some b → j = k) (hself : g i = some a)
    (hother : ∀ j, j ≠ i → g j = f j) (hfresh : ∀ j, f j ≠ some a) :
    ∀ j k b, g j = some b → g k = some b → j = k := by
  intro j k b hj hk
  by_cases hji : j = i <;> by_cases hki : k = i
  · rw [hji, hki]
  · rw [hji, hself] at hj
    rw [hother k hki, ← hj] at hk
    exact absurd hk (hfresh k)
  · rw [hki, hself] at hk
    rw [hother j hji, ← hk] at hj
    exact absurd hj (hfresh j)
  · rw [hother j hji] at hj
    rw [hother k hki] at hk
    exact hinj j k b hj hk

/-- `fetch_add`: the new id is above all others. -/
theorem Registered.number (h : Registered L s) {r : Nat} {c : Create} {l : Launched}
    (hnone : (s.creates r).launched = none) (hc : c.launched = some l)
    (hid : l.id = s.nextBreakpointId)
    (hok : (∀ id ∈ L.inserted, id ≠ l.id) → CreateOk L.inserted c)
    (hbound : L.numbered.length + 1 < 2 ^ 64) :
    Registered { L with numbered := L.numbered ++ [l.id] }
      ({ s with nextBreakpointId := s.nextBreakpointId + 1 }.setCreate r c) := by
  have hnext : l.id.toNat = L.numbered.length + 1 := by
    rw [hid, h.next_eq]
    exact UInt64.toNat_ofNat_of_lt' hbound
  have hnoid : s.idOf r = none := by rw [Registry.idOf, hnone]; rfl
  have hself : ({ s with nextBreakpointId := s.nextBreakpointId + 1 }.setCreate r c).idOf r
      = some l.id := by
    rw [Registry.idOf, Registry.setCreate_creates_self, hc]
    rfl
  have hother : ∀ r', r' ≠ r →
      ({ s with nextBreakpointId := s.nextBreakpointId + 1 }.setCreate r c).idOf r' = s.idOf r' :=
    fun r' hr ↦ by rw [Registry.idOf, Registry.setCreate_creates_of_ne _ _ _ hr]; rfl
  have hfresh : ∀ r', s.idOf r' ≠ some l.id := fun r' hr' ↦
    absurd (h.id_le r' _ hr') (by omega)
  have hkept : ∀ {r' id ok}, Watches s r' id ok →
      Watches ({ s with nextBreakpointId := s.nextBreakpointId + 1 }.setCreate r c) r' id ok := by
    intro r' id ok hw
    refine hw.mono ?_
    by_cases hr : r' = r
    · subst hr
      obtain ⟨l', hl', -⟩ := hw
      simp [hnone] at hl'
    · rw [Registry.setCreate_creates_of_ne _ _ _ hr]
  exact {
    next_eq := by
      rw [List.length_append, List.length_singleton, UInt64.ofNat_add, ← h.next_eq]
      rfl
    id_le := fun r' id hr' ↦ by
      rw [List.length_append, List.length_singleton]
      by_cases hr : r' = r
      · rw [hr, hself] at hr'
        cases hr'
        exact hnext.le
      · rw [hother r' hr] at hr'
        exact Nat.le_succ_of_le (h.id_le r' id hr')
    id_inj := inj_of_fresh h.id_inj hself hother hfresh
    create_ok := by
      refine Registry.forall_setCreate _ r c (hok fun id hid ↦ ?_) h.create_ok
      obtain ⟨r₁, hr₁⟩ := h.inserted_ok id hid
      rintro rfl
      exact hfresh r₁ hr₁
    entry_ok := fun id entry hentry ↦
      ⟨(h.entry_ok id entry hentry).1, hkept (h.entry_ok id entry hentry).2⟩
    keys_iff := h.keys_iff
    inserted_ok := fun id hid ↦ by
      obtain ⟨r', hr'⟩ := h.inserted_ok id hid
      have hr : r' ≠ r := by
        rintro rfl
        simp [hnoid] at hr'
      exact ⟨r', (hother r' hr).trans hr'⟩
    inserted_nodup := h.inserted_nodup
    removed_nodup := h.removed_nodup
    removed_sub := h.removed_sub
    delete_ok := fun d ↦ (h.delete_ok d).mono (fun _ _ hw ↦ hkept hw) (fun _ _ hw ↦ hkept hw)
    inFlight_ok := h.inFlight_ok
    inFlight_inj := h.inFlight_inj
    noContent_nodup := h.noContent_nodup
    noContent_ok := fun id hid ↦ by
      obtain ⟨hremoved, r', hw⟩ := h.noContent_ok id hid
      exact ⟨hremoved, r', hkept hw⟩ }

theorem CreateOk.insert {inserted : List UInt64} {c : Create} {id : UInt64}
    (h : CreateOk inserted c) (hne : ∀ l, c.launched = some l → l.id ≠ id) :
    CreateOk (inserted ++ [id]) c := by
  have hunlisted : ∀ l, c.launched = some l → Unlisted inserted l → Unlisted (inserted ++ [id]) l :=
    fun l hl hu ↦ ⟨by simp [hu.not_inserted, hne l hl], hu.not_cancelled⟩
  unfold CreateOk at h ⊢
  split at h
  · exact h
  · exact h
  · exact h
  · exact h
  · exact h
  · obtain ⟨l, hl, hu⟩ := h
    exact ⟨l, hl, hunlisted l hl hu⟩
  · obtain ⟨l, hl, hview, hu, hs⟩ := h
    exact ⟨l, hl, hview, hunlisted l hl hu, hs⟩
  · obtain ⟨l, hl, hview, hu, hs⟩ := h
    exact ⟨l, hl, hview, hunlisted l hl hu, hs⟩
  · obtain ⟨l, hl, hview, hmem⟩ := h
    exact ⟨l, hl, hview, List.mem_append_left _ hmem⟩
  · intro l hl
    simp [h l hl, hne l hl]

/-- `HashMap::insert`: no entry has the key yet. -/
theorem Registered.insert (h : Registered L s) {r : Nat} {c : Create} {l : Launched}
    {view : BreakpointView} (hlaunched : (s.creates r).launched = some l)
    (hview : view.id = l.id) (hl : Unlisted L.inserted l) (hstarted : l.watch.phase.Started)
    (hc : c.launched = some l) (hphase : c.phase = .done (.ok view)) :
    Registered { L with inserted := L.inserted ++ [view.id] }
      ({ s with breakpoints := s.breakpoints.insert view.id ⟨view, r⟩ }.setCreate r c) := by
  have hnew : view.id ∉ L.inserted := hview ▸ hl.not_inserted
  have hsame : ∀ r', (s.creates r').launched =
      (({ s with breakpoints := s.breakpoints.insert view.id ⟨view, r⟩ }.setCreate r c).creates
        r').launched := by
    intro r'
    by_cases hr : r' = r
    · subst hr
      rw [Registry.setCreate_creates_self, hlaunched, hc]
    · rw [Registry.setCreate_creates_of_ne _ _ _ hr]
  have hid : ∀ r', ({ s with breakpoints := s.breakpoints.insert view.id ⟨view, r⟩ }.setCreate
      r c).idOf r' = s.idOf r' := fun r' ↦ by rw [Registry.idOf, ← hsame]; rfl
  have hself : s.idOf r = some view.id := by rw [Registry.idOf, hlaunched, hview]; rfl
  exact {
    next_eq := h.next_eq
    id_le := fun r' id hr' ↦ h.id_le r' id (hid r' ▸ hr')
    id_inj := fun r₁ r₂ id h₁ h₂ ↦ h.id_inj r₁ r₂ id (hid r₁ ▸ h₁) (hid r₂ ▸ h₂)
    create_ok := fun r' ↦ by
      by_cases hr : r' = r
      · subst hr
        rw [Registry.setCreate_creates_self, CreateOk, hphase]
        exact ⟨l, hc, hview, by simp [hview]⟩
      · rw [Registry.setCreate_creates_of_ne _ _ _ hr]
        refine (h.create_ok r').insert fun l' hl' heq ↦ hr ?_
        have hr' : s.idOf r' = some view.id := by rw [Registry.idOf, hl', ← heq]; rfl
        exact h.id_inj r' r view.id hr' hself
    entry_ok := fun id entry hentry ↦ by
      by_cases heq : id = view.id
      · subst heq
        obtain rfl : ⟨view, r⟩ = entry :=
          Option.some.inj ((AList.lookup_insert s.breakpoints).symm.trans hentry)
        exact ⟨rfl, Watches.mono ⟨l, hlaunched, hview.symm, hl.not_cancelled, hstarted⟩ (hsame r)⟩
      · have hentry' : s.breakpoints.lookup id = some entry :=
          (AList.lookup_insert_ne heq).symm.trans hentry
        exact ⟨(h.entry_ok id entry hentry').1, (h.entry_ok id entry hentry').2.mono (hsame _)⟩
    keys_iff := fun id ↦ by
      have hremoved : view.id ∉ L.removed := fun hr ↦ hnew (h.removed_sub hr)
      rw [Registry.setCreate_breakpoints, AList.mem_insert, h.keys_iff, List.mem_append,
        List.mem_singleton]
      constructor
      · rintro (rfl | hk)
        · exact ⟨.inr rfl, hremoved⟩
        · exact ⟨.inl hk.1, hk.2⟩
      · rintro ⟨hi | rfl, hr⟩
        · exact .inr ⟨hi, hr⟩
        · exact .inl rfl
    inserted_ok := fun id hmem ↦ by
      rcases List.mem_append.mp hmem with hmem | hmem
      · obtain ⟨r', hr'⟩ := h.inserted_ok id hmem
        exact ⟨r', (hid r').trans hr'⟩
      · rw [List.mem_singleton.mp hmem]
        exact ⟨r, (hid r).trans hself⟩
    inserted_nodup := List.concat_eq_append ▸ h.inserted_nodup.concat hnew
    removed_nodup := h.removed_nodup
    removed_sub := fun id hr ↦ List.mem_append_left _ (h.removed_sub hr)
    delete_ok := fun d ↦ (h.delete_ok d).mono (fun _ _ hw ↦ hw.mono (hsame _))
      (fun _ _ hw ↦ hw.mono (hsame _))
    inFlight_ok := h.inFlight_ok
    inFlight_inj := h.inFlight_inj
    noContent_nodup := h.noContent_nodup
    noContent_ok := fun id hmem ↦ by
      obtain ⟨hremoved, r', hw⟩ := h.noContent_ok id hmem
      exact ⟨hremoved, r', hw.mono (hsame r')⟩ }

/-- `HashMap::remove`: the entry leaves the registry with its watch still running. -/
theorem Registered.remove (h : Registered L s) {d : Nat} {id : UInt64} {entry : BreakpointEntry}
    (hentry : s.breakpoints.lookup id = some entry) :
    Registered { L with removed := L.removed ++ [id] }
      ({ s with breakpoints := s.breakpoints.erase id }.setDelete d
        (.stopping id entry.watch)) := by
  have hkey : id ∈ s.breakpoints := AList.lookup_isSome.mp (by rw [hentry]; rfl)
  obtain ⟨hinserted, hremoved⟩ := (h.keys_iff id).mp hkey
  have hnew : id ∉ L.noContent := fun hn ↦ hremoved (h.noContent_ok id hn).1
  have hfresh : ∀ d', (s.deletes d').inFlight ≠ some id := fun d' hd' ↦
    hremoved (h.inFlight_ok d' id hd').1
  have hother : ∀ d', d' ≠ d → (({ s with breakpoints := s.breakpoints.erase id }.setDelete d
      (.stopping id entry.watch)).deletes d').inFlight = (s.deletes d').inFlight := fun d' hd ↦ by
    rw [Registry.setDelete_deletes_of_ne _ _ _ hd]
  have hself : (({ s with breakpoints := s.breakpoints.erase id }.setDelete d
      (.stopping id entry.watch)).deletes d).inFlight = some id := by
    rw [Registry.setDelete_deletes_self]
    rfl
  exact {
    next_eq := h.next_eq
    id_le := h.id_le
    id_inj := h.id_inj
    create_ok := h.create_ok
    entry_ok := fun id' entry' hentry' ↦ by
      have hne : id' ≠ id := by
        rintro rfl
        rw [Registry.setDelete_breakpoints, AList.lookup_erase] at hentry'
        cases hentry'
      rw [Registry.setDelete_breakpoints, AList.lookup_erase_ne hne] at hentry'
      exact h.entry_ok id' entry' hentry'
    keys_iff := fun id' ↦ by
      rw [Registry.setDelete_breakpoints, AList.mem_erase, h.keys_iff, List.mem_append,
        List.mem_singleton, not_or]
      exact ⟨fun ⟨hne, hi, hr⟩ ↦ ⟨hi, hr, hne⟩, fun ⟨hi, hr, hne⟩ ↦ ⟨hne, hi, hr⟩⟩
    inserted_ok := h.inserted_ok
    inserted_nodup := h.inserted_nodup
    removed_nodup := List.concat_eq_append ▸ h.removed_nodup.concat hremoved
    removed_sub := fun id' hr ↦ by
      rcases List.mem_append.mp hr with hr | hr
      · exact h.removed_sub hr
      · exact List.mem_singleton.mp hr ▸ hinserted
    delete_ok := fun d' ↦ by
      by_cases hd : d' = d
      · subst hd
        rw [Registry.setDelete_deletes_self]
        obtain ⟨l, hl, hlid, -, hs⟩ := (h.entry_ok id entry hentry).2
        exact ⟨l, hl, hlid, hs⟩
      · rw [Registry.setDelete_deletes_of_ne _ _ _ hd]
        exact (h.delete_ok d').mono (fun _ _ hw ↦ hw) (fun _ _ hw ↦ hw)
    inFlight_ok := fun d' id' hd' ↦ by
      by_cases hd : d' = d
      · rw [hd, hself] at hd'
        cases hd'
        exact ⟨by simp, hnew⟩
      · rw [hother d' hd] at hd'
        exact ⟨List.mem_append_left _ (h.inFlight_ok d' id' hd').1, (h.inFlight_ok d' id' hd').2⟩
    inFlight_inj := inj_of_fresh h.inFlight_inj hself hother hfresh
    noContent_nodup := h.noContent_nodup
    noContent_ok := fun id' hmem ↦ by
      obtain ⟨hr, hw⟩ := h.noContent_ok id' hmem
      exact ⟨List.mem_append_left _ hr, hw⟩ }

/-- A create whose id is inserted is done, whatever becomes of its watch. -/
theorem CreateOk.of_inserted {inserted : List UInt64} {c : Create} {l l' : Launched}
    (h : CreateOk inserted c) (hl : c.launched = some l) (hmem : l.id ∈ inserted)
    (hid : l'.id = l.id) : CreateOk inserted { c with launched := some l' } := by
  obtain ⟨phase, launched, reply⟩ := c
  obtain rfl : launched = some l := hl
  cases phase with
  | idle | admitted _ | resolving _ _ | filtering _ _ _ | numbering _ _ => cases h
  | launching _ =>
      obtain ⟨_, ⟨⟩, hu⟩ := h
      exact absurd hmem hu.not_inserted
  | locking _ | inserting _ =>
      obtain ⟨_, ⟨⟩, -, hu, -⟩ := h
      exact absurd hmem hu.not_inserted
  | done result =>
      cases result with
      | ok view =>
          obtain ⟨_, ⟨⟩, hview, -⟩ := h
          exact ⟨l', rfl, hview.trans hid.symm, hid ▸ hmem⟩
      | error message => exact absurd hmem (h l rfl)

/-- `RunningWatch::stop`: the watch of a removed entry. -/
theorem Registered.stop (h : Registered L s) {d r : Nat} {id : UInt64} {l l' : Launched}
    (hd : s.deletes d = .stopping id r) (hlaunched : (s.creates r).launched = some l)
    (hid : l'.id = l.id) (hcancel : l'.watch.cancel = true)
    (hstarted : l'.watch.phase.Started) :
    Registered L ((s.setCreate r { s.creates r with launched := some l' }).setDelete d
      (.stopped id)) := by
  have hflight : (s.deletes d).inFlight = some id := by rw [hd]; rfl
  obtain ⟨hremoved, hnew⟩ := h.inFlight_ok d id hflight
  have hlid : l.id = id := by
    have hok := h.delete_ok d
    rw [hd] at hok
    obtain ⟨l₀, hl₀, hlid, -⟩ := hok
    rw [hlaunched] at hl₀
    cases hl₀
    exact hlid
  have hself : (s.setCreate r { s.creates r with launched := some l' }).creates r =
      { s.creates r with launched := some l' } := Registry.setCreate_creates_self ..
  have hother : ∀ r', r' ≠ r →
      (s.setCreate r { s.creates r with launched := some l' }).creates r' = s.creates r' :=
    fun r' hr ↦ Registry.setCreate_creates_of_ne _ _ _ hr
  have hidOf : ∀ r', ((s.setCreate r { s.creates r with launched := some l' }).setDelete d
      (.stopped id)).idOf r' = s.idOf r' := by
    intro r'
    rw [Registry.idOf, Registry.setDelete_creates, Registry.idOf]
    by_cases hr : r' = r
    · rw [hr, hself, hlaunched, Option.map_some, Option.map_some, hid]
    · rw [hother r' hr]
  -- what holds of the stopped watch holds of any watch it held of
  have hkept : ∀ {r' id' ok}, Watches s r' id' ok → ok l'.watch →
      Watches (s.setCreate r { s.creates r with launched := some l' }) r' id' ok := by
    rintro r' id' ok ⟨l₀, hl₀, hid₀, hok⟩ hok'
    by_cases hr : r' = r
    · subst hr
      rw [hlaunched] at hl₀
      cases hl₀
      exact ⟨l', by rw [hself], hid.trans hid₀, hok'⟩
    · exact ⟨l₀, by rw [hother r' hr, hl₀], hid₀, hok⟩
  have hdeletes : ∀ d', d' ≠ d → ((s.setCreate r { s.creates r with launched := some l' }).setDelete
      d (.stopped id)).deletes d' = s.deletes d' :=
    fun d' hd' ↦ Registry.setDelete_deletes_of_ne _ _ _ hd'
  have hflights : ∀ d', (((s.setCreate r { s.creates r with launched := some l' }).setDelete
      d (.stopped id)).deletes d').inFlight = (s.deletes d').inFlight := by
    intro d'
    by_cases hd' : d' = d
    · rw [hd', Registry.setDelete_deletes_self, hflight]
      rfl
    · rw [hdeletes d' hd']
  exact {
    next_eq := h.next_eq
    id_le := fun r' id' hr' ↦ h.id_le r' id' (hidOf r' ▸ hr')
    id_inj := fun r₁ r₂ id' h₁ h₂ ↦ h.id_inj r₁ r₂ id' (hidOf r₁ ▸ h₁) (hidOf r₂ ▸ h₂)
    create_ok := s.forall_setCreate r _
      ((h.create_ok r).of_inserted hlaunched (hlid ▸ h.removed_sub hremoved) hid) h.create_ok
    entry_ok := fun id' entry hentry ↦ by
      obtain ⟨hview, l₀, hl₀, hid₀, hok⟩ := h.entry_ok id' entry hentry
      have hr : entry.watch ≠ r := by
        rintro hr
        rw [hr, hlaunched] at hl₀
        cases hl₀
        have hkey : id' ∈ s.breakpoints := AList.lookup_isSome.mp (Option.isSome_of_mem hentry)
        exact ((h.keys_iff id').mp hkey).2 (hid₀ ▸ hlid.symm ▸ hremoved)
      exact ⟨hview, l₀, by rw [Registry.setDelete_creates, hother _ hr, hl₀], hid₀, hok⟩
    keys_iff := h.keys_iff
    inserted_ok := fun id' hmem ↦ by
      obtain ⟨r', hr'⟩ := h.inserted_ok id' hmem
      exact ⟨r', (hidOf r').trans hr'⟩
    inserted_nodup := h.inserted_nodup
    removed_nodup := h.removed_nodup
    removed_sub := h.removed_sub
    delete_ok := fun d' ↦ by
      by_cases hd' : d' = d
      · subst hd'
        rw [Registry.setDelete_deletes_self]
        exact ⟨r, l', by rw [Registry.setDelete_creates, hself], hid.trans hlid, hcancel⟩
      · rw [hdeletes d' hd']
        exact (h.delete_ok d').mono (fun _ _ hw ↦ hkept hw hstarted)
          (fun _ _ hw ↦ hkept hw hcancel)
    inFlight_ok := fun d' id' hd' ↦ h.inFlight_ok d' id' (hflights d' ▸ hd')
    inFlight_inj := fun d₁ d₂ id' h₁ h₂ ↦
      h.inFlight_inj d₁ d₂ id' (hflights d₁ ▸ h₁) (hflights d₂ ▸ h₂)
    noContent_nodup := h.noContent_nodup
    noContent_ok := fun id' hmem ↦ by
      obtain ⟨hr, r', hw⟩ := h.noContent_ok id' hmem
      exact ⟨hr, r', hkept hw hcancel⟩ }

/-- 204: the removal is answered once. -/
theorem Registered.noContent (h : Registered L s) {d : Nat} {id : UInt64}
    (hd : s.deletes d = .stopped id) :
    Registered { L with noContent := L.noContent ++ [id] } (s.setDelete d .idle) := by
  have hself : (s.deletes d).inFlight = some id := by rw [hd]; rfl
  obtain ⟨hremoved, hnew⟩ := h.inFlight_ok d id hself
  have hflight : ∀ d' id', ((s.setDelete d .idle).deletes d').inFlight = some id' →
      (s.deletes d').inFlight = some id' ∧ id' ≠ id := by
    intro d' id' hd'
    rcases s.setDelete_cases d .idle (P := fun q ↦ q.inFlight = some id') hd' with
      ⟨-, hidle⟩ | ⟨hdd, hold⟩
    · cases hidle
    · refine ⟨hold, ?_⟩
      rintro rfl
      exact hdd (h.inFlight_inj d' d _ hold hself)
  have hbase := h.setDelete d (show DeletePhase.idle.inFlight = none from rfl)
  exact { hbase with
    inFlight_ok := fun d' id' hd' ↦ by
      obtain ⟨hold, hne⟩ := hflight d' id' hd'
      refine ⟨(h.inFlight_ok d' id' hold).1, ?_⟩
      rw [List.mem_append, List.mem_singleton, not_or]
      exact ⟨(h.inFlight_ok d' id' hold).2, hne⟩
    noContent_nodup := List.concat_eq_append ▸ h.noContent_nodup.concat hnew
    noContent_ok := fun id' hmem ↦ by
      rcases List.mem_append.mp hmem with hmem | hmem
      · exact h.noContent_ok id' hmem
      · rw [List.mem_singleton.mp hmem]
        have hok := h.delete_ok d
        rw [hd] at hok
        exact ⟨hremoved, hok⟩ }

/-! ## Runs -/

/-- A watch of any phase goes on without its job. -/
theorem CreateOk.continues {inserted : List UInt64} {c : Create} {l l' : Launched}
    (h : CreateOk inserted c) (hl : c.launched = some l) (hc : Continues l l') :
    CreateOk inserted { c with launched := some l' } := by
  obtain ⟨phase, launched, reply⟩ := c
  obtain rfl : launched = some l := hl
  cases phase with
  | idle | admitted _ | resolving _ _ | filtering _ _ _ | numbering _ _ => cases h
  | launching _ =>
      obtain ⟨_, ⟨⟩, hu⟩ := h
      exact ⟨l', rfl, hu.continues hc⟩
  | locking _ | inserting _ =>
      obtain ⟨_, ⟨⟩, hview, hu, hs⟩ := h
      exact ⟨l', rfl, hview.trans hc.id_eq.symm, hu.continues hc, hc.started hs⟩
  | done result =>
      cases result with
      | ok view =>
          obtain ⟨_, ⟨⟩, hview, hmem⟩ := h
          exact ⟨l', rfl, hview.trans hc.id_eq.symm, hc.id_eq ▸ hmem⟩
      | error message =>
          rintro _ ⟨⟩
          exact hc.id_eq ▸ h l rfl

variable {es : List Event} {e : Event} {t : Registry}

/-- **The step lemma.** -/
theorem Registered.step (h : Registered (ledger es) s) (hstep : Step arch s e t)
    (hbound : (ledger (es ++ [e])).numbered.length < 2 ^ 64) :
    Registered (ledger (es ++ [e])) t := by
  cases hstep with
  | @accept r request hp hr =>
      have hok := h.create_ok r
      rw [CreateOk, hp] at hok
      rw [ledger_snoc_of_none rfl rfl rfl rfl]
      exact h.setCreate (continues_refl _) hok
  | @checkType r _ _ hp _ | @resolve r _ _ _ _ hp | @parseFilter r _ _ _ _ hp _ =>
      have hok := h.create_ok r
      rw [CreateOk, hp] at hok
      rw [ledger_snoc_of_none rfl rfl rfl rfl]
      exact h.setCreate (continues_refl _) hok
  | @checkTypeError r _ _ hp _ | @resolveError r _ _ _ hp | @parseFilterError r _ _ _ _ hp _ =>
      have hok := h.create_ok r
      rw [CreateOk, hp] at hok
      rw [ledger_snoc_of_none rfl rfl rfl rfl]
      refine h.setCreate (continues_refl _) fun l hl ↦ ?_
      cases hok.symm.trans hl
  | @refuse r hp hr | @timeOut r hp hr | @answerError r _ hp hr | @answerCreated r _ hp hr =>
      rw [ledger_snoc_of_none rfl rfl rfl rfl]
      exact h.setCreate (continues_refl _) (h.create_ok r)
  | @number r config resolved hp =>
      have hok := h.create_ok r
      rw [CreateOk, hp] at hok
      rw [ledger_numbered] at hbound ⊢
      have hlt : (ledger es).numbered.length + 1 < 2 ^ 64 := by simpa using hbound
      let l : Launched := ⟨s.nextBreakpointId, config, .initial⟩
      let c : Create := { s.creates r with phase := .launching resolved, launched := some l }
      have hc : (∀ id ∈ (ledger es).inserted, id ≠ l.id) → CreateOk (ledger es).inserted c :=
        fun hfresh ↦ ⟨l, rfl, fun hmem ↦ hfresh _ hmem rfl, rfl⟩
      exact h.number (c := c) (l := l) hok rfl rfl hc hlt
  | @watch r l e' w hl hw hquiet =>
      have hc : Continues l { l with watch := w } := .of_step hw hquiet.2.1
      rw [ledger_snoc_of_none rfl rfl rfl rfl]
      exact h.setCreate (hl ▸ .some hc) ((h.create_ok r).continues hl hc)
  | @launchFailed r l _ _ w hl hp hw =>
      have hc : Continues l { l with watch := w } := .of_step hw (by simp)
      have hok := h.create_ok r
      rw [CreateOk, hp] at hok
      obtain ⟨l₀, hl₀, hu⟩ := hok
      cases hl.symm.trans hl₀
      rw [ledger_snoc_of_none rfl rfl rfl rfl]
      refine h.setCreate (hl ▸ .some hc) ?_
      rintro _ ⟨⟩
      exact hu.not_inserted
  | @launched r l resolved w createdAtMs hl hp hw =>
      have hc : Continues l { l with watch := w } := .of_step hw (by simp)
      have hstarted : w.phase.Started := by
        cases hw
        trivial
      have hok := h.create_ok r
      rw [CreateOk, hp] at hok
      obtain ⟨l₀, hl₀, hu⟩ := hok
      cases hl.symm.trans hl₀
      rw [ledger_snoc_of_none rfl rfl rfl rfl]
      exact h.setCreate (hl ▸ .some hc) ⟨_, rfl, rfl, hu.continues hc, hstarted⟩
  | @lockInsert r view hp hfree =>
      have hok := h.create_ok r
      rw [CreateOk, hp] at hok
      rw [ledger_snoc_of_none rfl rfl rfl rfl]
      exact (h.lock (.create r)).setCreate (continues_refl _) hok
  | @insert r view hp hlock =>
      have hok := h.create_ok r
      rw [CreateOk, hp] at hok
      obtain ⟨l, hl, hview, hu, hstarted⟩ := hok
      rw [ledger_inserted]
      exact (h.lock .free).insert hl hview hu hstarted hl rfl
  | lockDelete hd hfree | lockList hfree | list hlock _ =>
      rw [ledger_snoc_of_none rfl rfl rfl rfl]
      exact h.lock _
  | deleteBusy hd hbusy | listBusy hbusy =>
      rw [ledger_snoc_of_none rfl rfl rfl rfl]
      exact h
  | @remove d id entry hlock hentry =>
      rw [ledger_removed]
      exact (h.lock .free).remove hentry
  | @miss d id hlock hnone =>
      rw [ledger_snoc_of_none rfl rfl rfl rfl]
      exact (h.lock .free).setDelete d rfl
  | @stop d r id l w hd hl hw =>
      rw [ledger_snoc_of_none rfl rfl rfl rfl]
      cases hw with
      | stop hstarted => exact h.stop hd hl rfl rfl hstarted
  | @noContent d id hd =>
      rw [ledger_noContent]
      exact h.noContent hd
  | @notFound d id hd =>
      rw [ledger_snoc_of_none rfl rfl rfl rfl]
      exact h.setDelete d rfl

/-- **The run lemma**, for fewer than `2 ^ 64` reserved ids. -/
theorem registered (hrun : Run (Step arch) Registry.initial es s)
    (hbound : (ledger es).numbered.length < 2 ^ 64) : Registered (ledger es) s := by
  induction hrun with
  | nil => exact registered_initial
  | @snoc es s t e hrun hstep ih =>
      have hle : (ledger es).numbered.length ≤ (ledger (es ++ [e])).numbered.length := by
        rw [ledger_snoc, List.length_append]
        exact Nat.le_add_right _ _
      exact (ih (Nat.lt_of_le_of_lt hle hbound)).step hstep hbound

end Pwatch.Server
