import Pwatch.Server.Ledger
import Pwatch.Server.Progress
import Pwatch.Slices

/-!
# The laws of the registry

What clients may rely on, over every interleaving of creates, deletes, lists and
watches: ids are unique, an insert replaces nothing, the keys are the inserted ids
without the removed ones, a removal is answered once and with its watch stopped, and a
list shows every live entry once, in the order of the ids.
-/

namespace Pwatch.Server

variable {arch : Arch} {es : List Event} {e : Event} {s t : Registry}

/-! ## Steps and the entries -/

/-- Only `insert` and `remove` change the entries. -/
theorem breakpoints_eq_of_step (h : Step arch s e t) (hinserted : e.insertedId = none)
    (hremoved : e.removedId = none) : t.breakpoints = s.breakpoints := by
  cases h with
  | insert hp hlock => cases hinserted
  | remove hlock hentry => cases hremoved
  | _ => rfl

/-- A delete with nothing to do has just missed, or had nothing to do before. -/
theorem missing_of_step (h : Step arch s e t) {d : Nat} {id : UInt64}
    (hd : t.deletes d = .missing id) :
    e = .missed d id ∨ (s.deletes d = .missing id ∧ ∀ id' w, e ≠ .removed d id' w) := by
  cases h with
  | remove _ _ =>
      rcases Registry.setDelete_cases _ _ _ (P := (· = .missing id)) hd with ⟨-, hp⟩ | ⟨hne, hold⟩
      · cases hp
      · refine .inr ⟨hold, ?_⟩
        rintro id' w heq
        exact hne (Event.removed.inj heq).1.symm
  | miss _ _ =>
      rcases Registry.setDelete_cases _ _ _ (P := (· = .missing id)) hd with ⟨rfl, hp⟩ | ⟨-, hold⟩
      · cases hp
        exact .inl rfl
      · exact .inr ⟨hold, by simp⟩
  | stop _ _ _ | noContent _ | notFound _ =>
      rcases Registry.setDelete_cases _ _ _ (P := (· = .missing id)) hd with ⟨-, hp⟩ | ⟨-, hold⟩
      · cases hp
      · exact .inr ⟨hold, by simp⟩
  | _ => exact .inr ⟨hd, by simp⟩

/-- A delete that answers 404 has missed, and has removed nothing since. -/
theorem missed_of_missing (hrun : Run (Step arch) Registry.initial es s) {d : Nat} {id : UInt64}
    (hd : s.deletes d = .missing id) :
    ∃ before after, es = before ++ .missed d id :: after ∧ ∀ id' w, .removed d id' w ∉ after := by
  induction hrun with
  | nil => cases hd
  | @snoc es s t e hrun hstep ih =>
      rcases missing_of_step hstep hd with rfl | ⟨hold, hne⟩
      · exact ⟨es, [], rfl, by simp⟩
      · obtain ⟨before, after, rfl, hno⟩ := ih hold
        refine ⟨before, after ++ [e], by simp, fun id' w ↦ ?_⟩
        simp [hno id' w, Ne.symm (hne id' w)]

/-! ## Lists -/

/-- The answer of a list: the live entries in ascending order. -/
theorem Registered.list {L : Ledger} (h : Registered L s) {values : List BreakpointView}
    (hvalues : values.Perm (s.breakpoints.entries.map fun entry ↦ entry.2.view)) :
    (values.mergeSort fun a b ↦ a.id ≤ b.id).Pairwise (fun a b ↦ a.id < b.id) ∧
      ∀ view, (view ∈ values.mergeSort fun a b ↦ a.id ≤ b.id) ↔
        ∃ entry, s.breakpoints.lookup view.id = some entry ∧ entry.view = view := by
  have hkey : ∀ entry ∈ s.breakpoints.entries, entry.2.view.id = entry.1 := fun entry hentry ↦
    (h.entry_ok entry.1 entry.2 (AList.mem_lookup_iff.mpr hentry)).1
  have hids : values.map (fun view ↦ view.id) |>.Nodup := by
    have hperm := hvalues.map fun view ↦ view.id
    rw [List.map_map] at hperm
    refine (hperm.nodup_iff).mpr ?_
    have hkeys : s.breakpoints.entries.map ((fun view ↦ view.id) ∘ fun entry ↦ entry.2.view) =
        s.breakpoints.keys := List.map_congr_left hkey
    exact hkeys ▸ s.breakpoints.keys_nodup
  constructor
  · exact pairwise_mergeSort_lt hids
  · intro view
    rw [List.mem_mergeSort, hvalues.mem_iff, List.mem_map]
    constructor
    · rintro ⟨entry, hentry, rfl⟩
      refine ⟨entry.2, ?_, rfl⟩
      rw [hkey entry hentry]
      exact AList.mem_lookup_iff.mpr hentry
    · rintro ⟨entry, hentry, rfl⟩
      exact ⟨⟨_, entry⟩, AList.mem_lookup_iff.mp hentry, rfl⟩

/-! ## The laws -/

/-- What every history of requests satisfies. -/
structure RegistryLaws (arch : Arch) (es : List Event) (s : Registry) : Prop where
  /-- No two creates hold the same id. -/
  id_injective : ∀ r r' id, s.idOf r = some id → s.idOf r' = some id → r = r'
  /-- Ids are below the counter, as long as that has not wrapped. -/
  id_lt : (ledger es).numbered.length + 1 < 2 ^ 64 →
    ∀ r id, s.idOf r = some id → id < s.nextBreakpointId
  /-- A finished create has answered with the id it holds. -/
  id_of_done : ∀ r view, (s.creates r).phase = .done (.ok view) → s.idOf r = some view.id
  /-- No insert replaces an entry. -/
  insert_new : ∀ r id replaced, .inserted r id replaced ∈ es → replaced = none
  /-- Every entry is under the id of its view. -/
  view_id : ∀ id entry, s.breakpoints.lookup id = some entry → entry.view.id = id
  /-- The keys are the inserted ids without the removed ones. -/
  keys : ∀ id, id ∈ s.breakpoints.keys ↔ id ∈ (ledger es).inserted ∧ id ∉ (ledger es).removed
  /-- 204 is answered at most once for each id. -/
  noContent_once : ∀ id, (ledger es).noContent.count id ≤ 1
  /-- At a 204 the entry is removed and the cancel flag of its watch is already set. -/
  stopped_before_noContent : ∀ before d id after, es = before ++ .noContent d id :: after →
    id ∈ (ledger before).removed ∧
      ∃ t u, Run (Step arch) Registry.initial before t ∧ Step arch t (.noContent d id) u ∧
        Run (Step arch) u after s ∧ ∃ r, Watches t r id fun w ↦ w.cancel = true
  /-- The watch of an entry that is still registered is not cancelled. -/
  not_cancelled : ∀ id entry, s.breakpoints.lookup id = some entry →
    Watches s entry.watch id fun w ↦ w.cancel = false
  /-- 503 leaves the registry unchanged, for deletes and for lists. -/
  busy_unchanged : ∀ before e after, es = before ++ e :: after →
    (∃ d id, e = .deleteBusy d id) ∨ (∃ q, e = .listBusy q) →
      ∃ t u, Run (Step arch) Registry.initial before t ∧ Step arch t e u ∧
        Run (Step arch) u after s ∧ u.breakpoints = t.breakpoints
  /-- A delete that is answered 404 has looked up its id without changing the registry,
  and has removed nothing. -/
  notFound_unchanged : ∀ before d id after, es = before ++ .notFound d id :: after →
    ∃ earlier later t u, before = earlier ++ .missed d id :: later ∧
      (∀ id' w, .removed d id' w ∉ later) ∧
        Run (Step arch) Registry.initial earlier t ∧ Step arch t (.missed d id) u ∧
          Run (Step arch) u (later ++ .notFound d id :: after) s ∧
            u.breakpoints = t.breakpoints
  /-- A list shows each live entry once, in ascending order of the ids. -/
  listed : ∀ before q views after, es = before ++ .listed q views :: after →
    ∃ t u, Run (Step arch) Registry.initial before t ∧ Step arch t (.listed q views) u ∧
      Run (Step arch) u after s ∧ views.Pairwise (fun a b ↦ a.id < b.id) ∧
        ∀ view, view ∈ views ↔
          ∃ entry, t.breakpoints.lookup view.id = some entry ∧ entry.view = view

theorem numbered_length_le (es fs : List Event) :
    (ledger es).numbered.length ≤ (ledger (es ++ fs)).numbered.length := by
  rw [ledger, ledger, List.filterMap_append, List.length_append]
  exact Nat.le_add_right _ _

/-- **The breakpoint registry.**  The laws hold in every state that is reached with fewer
than `2 ^ 64` reserved ids.  The last of these ids takes the counter round to `0`, so that one
law asks for one id less. -/
theorem registryLaws (hrun : Run (Step arch) Registry.initial es s)
    (hbound : (ledger es).numbered.length < 2 ^ 64) : RegistryLaws arch es s := by
  have h := registered hrun hbound
  -- the invariant in the middle of the history
  have hmiddle : ∀ {before after e}, es = before ++ e :: after →
      ∃ t u, Run (Step arch) Registry.initial before t ∧ Registered (ledger before) t ∧
        Step arch t e u ∧ Run (Step arch) u after s := by
    rintro before after e rfl
    obtain ⟨t, u, ht, hstep, hu⟩ := hrun.split_event
    have hle := numbered_length_le before (e :: after)
    exact ⟨t, u, ht, registered ht (Nat.lt_of_le_of_lt hle hbound), hstep, hu⟩
  exact {
    id_injective := h.id_inj
    id_lt := fun hlt r id hr ↦ by
      rw [UInt64.lt_iff_toNat_lt, h.next_eq, UInt64.toNat_ofNat_of_lt' hlt]
      exact Nat.lt_succ_of_le (h.id_le r id hr)
    id_of_done := fun r view hp ↦ by
      have hok := h.create_ok r
      rw [CreateOk, hp] at hok
      obtain ⟨l, hl, hview, -⟩ := hok
      rw [Registry.idOf, hl, hview]
      rfl
    insert_new := fun r id replaced hmem ↦ by
      obtain ⟨before, after, hes⟩ := List.append_of_mem hmem
      obtain ⟨t, u, -, ht, hstep, -⟩ := hmiddle hes
      cases hstep with
      | insert hp hlock =>
          have hok := ht.create_ok r
          rw [CreateOk, hp] at hok
          obtain ⟨l, -, hview, hu, -⟩ := hok
          rw [AList.lookup_eq_none, ht.keys_iff, hview]
          exact fun hk ↦ hu.not_inserted hk.1
    view_id := fun id entry hentry ↦ (h.entry_ok id entry hentry).1
    keys := fun id ↦ AList.mem_keys.symm.trans (h.keys_iff id)
    noContent_once := List.nodup_iff_count_le_one.mp h.noContent_nodup
    stopped_before_noContent := fun before d id after hes ↦ by
      obtain ⟨t, u, hrun', ht, hstep, hafter⟩ := hmiddle hes
      have hd : t.deletes d = .stopped id := by
        cases hstep with
        | noContent hd => exact hd
      have hok := ht.delete_ok d
      rw [hd] at hok
      exact ⟨(ht.inFlight_ok d id (by rw [hd]; rfl)).1, t, u, hrun', hstep, hafter, hok⟩
    not_cancelled := fun id entry hentry ↦ by
      obtain ⟨-, l, hl, hid, hcancel, -⟩ := h.entry_ok id entry hentry
      exact ⟨l, hl, hid, hcancel⟩
    busy_unchanged := fun before e after hes he ↦ by
      obtain ⟨t, u, hrun', -, hstep, hafter⟩ := hmiddle hes
      refine ⟨t, u, hrun', hstep, hafter, breakpoints_eq_of_step hstep ?_ ?_⟩
      · rcases he with ⟨d, id, rfl⟩ | ⟨q, rfl⟩ <;> rfl
      · rcases he with ⟨d, id, rfl⟩ | ⟨q, rfl⟩ <;> rfl
    notFound_unchanged := fun before d id after hes ↦ by
      obtain ⟨t, u, hrun', -, hstep, hafter⟩ := hmiddle hes
      have hd : t.deletes d = .missing id := by
        cases hstep with
        | notFound hd => exact hd
      obtain ⟨earlier, later, rfl, hno⟩ := missed_of_missing hrun' hd
      obtain ⟨t', u', ht', hmiss, hlater⟩ := hrun'.split_event
      exact ⟨earlier, later, t', u', rfl, hno, ht', hmiss, hlater.append (hafter.cons hstep),
        breakpoints_eq_of_step hmiss rfl rfl⟩
    listed := fun before q views after hes ↦ by
      obtain ⟨t, u, hrun', ht, hstep, hafter⟩ := hmiddle hes
      obtain ⟨values, rfl, hvalues⟩ : ∃ values : List BreakpointView,
          views = values.mergeSort (fun a b ↦ a.id ≤ b.id) ∧
            values.Perm (t.breakpoints.entries.map fun entry ↦ entry.2.view) := by
        cases hstep with
        | list hlock hvalues => exact ⟨_, rfl, hvalues⟩
      exact ⟨t, u, hrun', hstep, hafter, ht.list hvalues⟩ }

/-- A breakpoint that is created and deleted. -/
theorem registryLaws_deleted :
    ∃ es s, Run (Step .aarch64) Registry.initial es s ∧ (ledger es).noContent = [1] ∧
      RegistryLaws .aarch64 es s := by
  let request : CreateBreakpointRequest := ⟨7, "w4".toList, "0x40".toList, false, none⟩
  let resolved := resolvedAddress request 0x40 none
  let config := watchConfig request (2, 4) resolved none
  let view := newView 1 config resolved [7] 0
  let l : Launched := ⟨1, config, ⟨[7], [5], .head, 0, false⟩⟩
  let s₁ := afterRegister Registry.initial 0 config 5 view none
  let s₂ : Registry := { s₁ with lock := .delete 0 1 }
  let s₃ : Registry :=
    { s₂ with breakpoints := s₂.breakpoints.erase 1, lock := .free }.setDelete 0 (.stopping 1 0)
  have hcreate : Run (Step .aarch64) Registry.initial _ s₁ :=
    run_admitted_create rfl rfl (show watchpointType request = .ok (2, 4) from rfl)
      (show parsedFilter .aarch64 request = .ok none from rfl) 0x40 none 7 5 0
  have hlock : Step .aarch64 s₁ (.deleteLocked 0) s₂ := .lockDelete rfl rfl
  have hremove : Step .aarch64 s₂ (.removed 0 1 0) s₃ := by
    have hentry : s₂.breakpoints.lookup 1 = some ⟨view, 0⟩ := AList.lookup_insert _
    have h : Step .aarch64 s₂ _ _ := .remove rfl hentry
    exact h
  have hlaunched : (s₃.creates 0).launched = some l := rfl
  have hstop : Step .aarch64 s₃ (.stopped 0 0) _ :=
    .stop (show s₃.deletes 0 = .stopping 1 0 from rfl) hlaunched (.stop trivial)
  have hdelete : Run (Step .aarch64) s₁ _ _ :=
    .cons hlock (.cons hremove (.cons hstop (.single
      (.noContent (Registry.setDelete_deletes_self ..)))))
  have hrun := hcreate.append hdelete
  have hbound : [(1 : UInt64)].length < 2 ^ 64 := by decide
  exact ⟨_, _, hrun, rfl, registryLaws hrun hbound⟩

/-! ## The counter -/

/-- A sound create goes on to `fetch_add`. -/
theorem run_reserve {request : CreateBreakpointRequest} {typeLen : UInt32 × UInt32}
    {filter : Option Filter.RegFilter} {r : Nat} (hc : s.creates r = ⟨.idle, none, none⟩)
    (htype : watchpointType request = .ok typeLen)
    (hfilter : parsedFilter arch request = .ok filter) (value : UInt64) :
    ∃ c, Run (Step arch) s
        (.admitted r request :: ([.went r, .went r, .went r] ++ [.numbered r s.nextBreakpointId]))
        ({ s with nextBreakpointId := s.nextBreakpointId + 1 }.setCreate r c) ∧
      c.launched.map (fun l ↦ l.id) = some s.nextBreakpointId := by
  let resolved := resolvedAddress request value none
  let config := watchConfig request typeLen resolved filter
  let c₁ : Create := ⟨.admitted request, none, none⟩
  let c₂ : Create := ⟨.numbering config resolved, none, none⟩
  let c₃ : Create :=
    ⟨.launching resolved, some ⟨s.nextBreakpointId, config, .initial⟩, none⟩
  have hadmit : Step arch s (.admitted r request) (s.setCreate r c₁) := by
    have h : Step arch s (.admitted r request) _ := .accept (by rw [hc]) (by rw [hc])
    rwa [hc] at h
  have hchecks : Run (Step arch) (s.setCreate r c₁) [.went r, .went r, .went r]
      (s.setCreate r c₂) := by
    have h := run_checks (s.setCreate_creates_self r c₁) htype hfilter value none
    rwa [Registry.setCreate_setCreate] at h
  have hnumber : Step arch (s.setCreate r c₂) (.numbered r s.nextBreakpointId)
      ({ s with nextBreakpointId := s.nextBreakpointId + 1 }.setCreate r c₃) := by
    have h : Step arch (s.setCreate r c₂) (.numbered r s.nextBreakpointId) _ :=
      .number (by rw [Registry.setCreate_creates_self])
    rw [Registry.setCreate_creates_self] at h
    have hsame := Registry.setCreate_setCreate
      { s with nextBreakpointId := s.nextBreakpointId + 1 } r c₂ c₃
    exact hsame ▸ h
  exact ⟨c₃, .cons hadmit (hchecks.append (.single hnumber)), rfl⟩

/-- So many creates, each up to `fetch_add`. -/
theorem exists_run_reserved (n : Nat) : ∃ es s, Run (Step .aarch64) Registry.initial es s ∧
    (ledger es).numbered.length = n ∧ s.nextBreakpointId = UInt64.ofNat (n + 1) ∧
      (∀ r, n ≤ r → s.creates r = ⟨.idle, none, none⟩) ∧ (0 < n → s.idOf 0 = some 1) := by
  induction n with
  | zero => exact ⟨[], .initial, .nil, rfl, rfl, fun _ _ ↦ rfl, fun h ↦ absurd h (by decide)⟩
  | succ n ih =>
      obtain ⟨es, s, hrun, hlen, hnext, hidle, hid⟩ := ih
      let request : CreateBreakpointRequest := ⟨7, "w4".toList, "0x40".toList, false, none⟩
      have htype : watchpointType request = .ok (2, 4) := rfl
      have hfilter : parsedFilter .aarch64 request = .ok none := rfl
      obtain ⟨c, hreserve, hc⟩ := run_reserve (hidle n le_rfl) htype hfilter 0x40
      refine ⟨_, _, hrun.append hreserve, ?_, ?_, fun r hr ↦ ?_, fun _ ↦ ?_⟩
      · rw [ledger, List.filterMap_append, List.length_append]
        exact congrArg (· + 1) hlen
      · change s.nextBreakpointId + 1 = _
        rw [hnext, UInt64.ofNat_add (n + 1)]
        rfl
      · rw [Registry.setCreate_creates_of_ne _ _ _ (by omega)]
        exact hidle r (by omega)
      · by_cases hn : n = 0
        · subst hn
          rw [Registry.idOf, Registry.setCreate_creates_self, hc, hnext]
          rfl
        · rw [Registry.idOf, Registry.setCreate_creates_of_ne _ _ _ (by omega)]
          exact hid (by omega)

/-- After `2 ^ 64 - 1` creates the counter is `0`, and no id is below it. -/
theorem not_id_lt : ∃ (es : List Event) (s : Registry), Run (Step .aarch64) Registry.initial es s ∧
    (ledger es).numbered.length < 2 ^ 64 ∧
      (∀ r, 2 ^ 64 - 1 ≤ r → s.creates r = ⟨.idle, none, none⟩) ∧
        ∃ r id, s.idOf r = some id ∧ ¬ id < s.nextBreakpointId := by
  obtain ⟨es, s, hrun, hlen, hnext, hidle, hid⟩ := exists_run_reserved (2 ^ 64 - 1)
  refine ⟨es, s, hrun, by rw [hlen]; decide, hidle, 0, 1, hid (by decide), ?_⟩
  rw [hnext]
  decide

end Pwatch.Server
