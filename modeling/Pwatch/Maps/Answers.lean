import Pwatch.Maps.Batch

/-!
# What the methods of the maps cache answer

Callers act in any order, and the maps file of a process changes whenever it likes.  What a
method returns is explained all the same by readings of the file: what it finds was read less
than a second before it was called, or later, and what it does not find was not in a reading
that it has made itself, or it could not read (`answered`).

A method asks the world twice at most, so the proof is a precondition for each method
(`Prog.Wp`) and one invariant for all of them (`Span.At`).
-/

namespace Pwatch.Maps

open Text

/-! ## Preconditions -/

/-- What the calls of a program may return. -/
structure Answers where
  clock : Instant → Prop
  regionsWith : Instant → UInt32 → Bool → Except Str (List ParsedRegion) → Prop

/-- There are more answers. -/
structure Answers.Sub (a b : Answers) : Prop where
  clock : ∀ now, a.clock now → b.clock now
  regionsWith : ∀ now pid forceRefresh result,
    a.regionsWith now pid forceRefresh result → b.regionsWith now pid forceRefresh result

theorem Answers.Sub.trans {a b c : Answers} (h : a.Sub b) (h' : b.Sub c) : a.Sub c where
  clock now hnow := h'.clock now (h.clock now hnow)
  regionsWith now pid forceRefresh result hresult :=
    h'.regionsWith now pid forceRefresh result (h.regionsWith now pid forceRefresh result hresult)

namespace Prog

variable {α β : Type} {a : Answers} {p : Prog α} {f : α → Prog β}

/-- The weakest precondition: whichever answers its calls get, the program returns what is
asked for. -/
def Wp (a : Answers) : Prog α → (α → Prop) → Prop
  | .done value, post => post value
  | .now next, post => ∀ t, a.clock t → (next t).Wp a post
  | .regionsWith t pid forceRefresh next, post =>
      ∀ result, a.regionsWith t pid forceRefresh result → (next result).Wp a post

theorem Wp.mono {post post' : α → Prop} (h : p.Wp a post)
    (hpost : ∀ value, post value → post' value) : p.Wp a post' := by
  induction p with
  | done value => exact hpost value h
  | now next ih => exact fun t ht ↦ ih t (h t ht)
  | regionsWith t pid forceRefresh next ih =>
      exact fun result hresult ↦ ih result (h result hresult)

theorem Wp.bind {post : β → Prop} (h : p.Wp a fun value ↦ (f value).Wp a post) :
    (p.bind f).Wp a post := by
  induction p with
  | done value => exact h
  | now next ih => exact fun t ht ↦ ih t (h t ht)
  | regionsWith t pid forceRefresh next ih =>
      exact fun result hresult ↦ ih result (h result hresult)

end Prog

/-! ## A call in its history -/

/-- A call: when it was made and by whom, what had happened by then and what has happened
since. -/
structure Span where
  start : Instant
  caller : Nat
  before : List Event
  during : List Event

namespace Span

variable (h : Span) (pid : UInt32)

/-- The maps file held these regions less than a second before the call, or later. -/
def Recent (regions : List ParsedRegion) : Prop :=
  ∃ c readAt, .read c pid readAt regions ∈ h.before ++ h.during ∧ h.start < readAt + second

/-- The call has read these regions itself. -/
def Own (regions : List ParsedRegion) : Prop :=
  ∃ readAt, h.start ≤ readAt ∧ .read h.caller pid readAt regions ∈ h.during

/-- The call could not read the maps file. -/
def Failed (message : Str) : Prop :=
  ∃ now forceRefresh, .readFailed h.caller now pid forceRefresh message ∈ h.during

/-- The call has looked at the file itself, and the address was not there. -/
def Unmapped (addr : UInt64) : Prop :=
  (∃ regions, h.Own pid regions ∧ ∀ region ∈ regions, region.contains addr = false) ∨
    ∃ message, h.Failed pid message

/-- `list` returns a reading of its own. -/
def Lists : Except Str (List MapRegion) → Prop
  | .ok maps => ∃ regions, h.Own pid regions ∧ maps = regions.map fun region ↦ region.region
  | .error message => h.Failed pid message

/-- `resolve` finds an address in a recent reading, and misses it in its own. -/
def Resolves (addr : UInt64) : Option MapRegion → Prop
  | some map => ∃ regions, h.Recent pid regions ∧
      (regions.find? fun region ↦ region.contains addr).map (fun region ↦ region.region) = some map
  | none => h.Unmapped pid addr

/-- `resolve_many_addresses` looks its addresses up in two readings at most, the second of them
its own.  It makes do with the first one only if it has found them all. -/
def ResolvesMany (addrs : List UInt64) (resolved : List (Option AddressResolution)) : Prop :=
  ∃ cached own, resolved = addrs.map (resolveTwice cached own) ∧
    (h.Recent pid cached ∨ cached = [] ∧ (addrs = [] ∨ ∃ message, h.Failed pid message)) ∧
    (h.Own pid own ∨ own = [] ∧ (none ∉ resolved ∨ ∃ message, h.Failed pid message))

/-- `resolve_expression` takes a number as it is, and the start of a module from a reading of
its own. -/
def ResolvesExpression (expression : Str) : Except Str ResolvedAddress → Prop
  | .ok resolved =>
      resolved.expression = expression ∧
      resolved.address = "0x".toList ++ lowerHex16 resolved.value.toNat ∧
      (parseNumericAddr (trim expression) = some resolved.value ∨
        parseNumericAddr (trim expression) = none ∧ ∃ regions, h.Own pid regions ∧
          resolveModuleOffset (m := Id) (.ok regions) pid expression = .ok resolved.value) ∧
      h.Resolves pid resolved.value resolved.map
  | .error message =>
      parseNumericAddr (trim expression) = none ∧
      (parseModuleOffset expression = .error message ∨ h.Failed pid message ∨
        ∃ regions, h.Own pid regions ∧
          resolveModuleOffset (m := Id) (.ok regions) pid expression = .error message)

/-- What a call returns, by the readings. -/
def Explains : Call → Result → Prop
  | .list pid, .list result => h.Lists pid result
  | .resolve pid addr, .resolve result => h.Resolves pid addr result
  | .resolveManyAddresses pid addrs, .resolveManyAddresses result =>
      h.ResolvesMany pid addrs result
  | .resolveExpression pid expression, .resolveExpression result =>
      h.ResolvesExpression pid expression result
  | _, _ => False

/-- The answers a call can have got. -/
def answers : Answers where
  clock now := h.start ≤ now
  regionsWith now pid forceRefresh
    | .ok regions =>
        (∃ c readAt, .read c pid readAt regions ∈ h.before ++ h.during ∧ now < readAt + second) ∧
          (forceRefresh = true → h.Own pid regions)
    | .error message => .readFailed h.caller now pid forceRefresh message ∈ h.during

/-! ## The methods -/

variable {h : Span} {pid : UInt32}

theorem recent_of_answer {now : Instant} (hnow : h.start ≤ now) {forceRefresh : Bool}
    {regions : List ParsedRegion}
    (hok : h.answers.regionsWith now pid forceRefresh (.ok regions)) : h.Recent pid regions := by
  obtain ⟨⟨c, readAt, hread, hlt⟩, -⟩ := hok
  exact ⟨c, readAt, hread, Nat.lt_of_le_of_lt hnow hlt⟩

theorem failed_of_answer {now : Instant} {forceRefresh : Bool} {message : Str}
    (herror : h.answers.regionsWith now pid forceRefresh (.error message)) :
    h.Failed pid message :=
  ⟨now, forceRefresh, herror⟩

/-- A forced call. -/
theorem wp_regions {post : Except Str (List ParsedRegion) → Prop}
    (hok : ∀ regions, h.Own pid regions → post (.ok regions))
    (herror : ∀ message, h.Failed pid message → post (.error message)) :
    (regions pid true).Wp h.answers post := by
  intro now _ result hresult
  cases result with
  | ok regions => exact hok regions (hresult.2 rfl)
  | error message => exact herror message (failed_of_answer hresult)

theorem wp_list : (list pid).Wp h.answers (h.Lists pid) :=
  Prog.Wp.bind (wp_regions (fun regions hown ↦ ⟨regions, hown, rfl⟩) fun _ hfailed ↦ hfailed)

/-- An address that a table does not have. -/
theorem contains_eq_false {regions : List ParsedRegion} {addr : UInt64}
    (hnone : (regions.find? fun region ↦ region.contains addr).map
      (fun region ↦ region.region) = none) :
    ∀ region ∈ regions, region.contains addr = false := by
  have hfind := List.find?_eq_none.mp (Option.map_eq_none_iff.mp hnone)
  exact fun region hmem ↦ Bool.eq_false_iff.mpr (hfind region hmem)

/-- The forced lookup. -/
theorem wp_resolveCached_true {now : Instant} (hnow : h.start ≤ now) (addr : UInt64) :
    (resolveCached pid addr now true).Wp h.answers (h.Resolves pid addr) := by
  intro result hresult
  cases result with
  | error message => exact .inr ⟨message, failed_of_answer hresult⟩
  | ok regions =>
      change h.Resolves pid addr ((regions.find? fun region ↦ region.contains addr).map _)
      cases hfind : (regions.find? fun region ↦ region.contains addr).map
          (fun region ↦ region.region) with
      | some map => exact ⟨regions, recent_of_answer hnow hresult, hfind⟩
      | none => exact .inl ⟨regions, hresult.2 rfl, contains_eq_false hfind⟩

/-- The first lookup finds the address in a recent reading, or nothing comes of it. -/
theorem wp_resolveCached_false {now : Instant} (hnow : h.start ≤ now) (addr : UInt64) :
    (resolveCached pid addr now false).Wp h.answers fun map ↦
      map = none ∨ h.Resolves pid addr map := by
  intro result hresult
  cases result with
  | error message => exact .inl rfl
  | ok regions =>
      change _ = none ∨
        h.Resolves pid addr ((regions.find? fun region ↦ region.contains addr).map _)
      cases hfind : (regions.find? fun region ↦ region.contains addr).map
          (fun region ↦ region.region) with
      | some map => exact .inr ⟨regions, recent_of_answer hnow hresult, hfind⟩
      | none => exact .inl hfind

theorem wp_resolve (addr : UInt64) : (resolve pid addr).Wp h.answers (h.Resolves pid addr) := by
  intro now hnow
  refine Prog.Wp.bind ((wp_resolveCached_false hnow addr).mono fun map hmap ↦ ?_)
  cases map with
  | none => exact wp_resolveCached_true hnow addr
  | some map => exact hmap.resolve_left (Option.some_ne_none map)

theorem wp_resolveManyAddresses (addrs : List UInt64) :
    (resolveManyAddresses pid addrs).Wp h.answers (h.ResolvesMany pid addrs) := by
  unfold resolveManyAddresses
  split
  · rename_i hempty
    have hnil := List.isEmpty_iff.mp hempty
    exact ⟨[], [], by rw [hnil]; rfl, .inr ⟨rfl, .inl hnil⟩, .inr ⟨rfl, .inl (by simp)⟩⟩
  · intro now hnow first hfirst
    have hcached : h.Recent pid (found first) ∨
        found first = [] ∧ (addrs = [] ∨ ∃ message, h.Failed pid message) := by
      cases first with
      | ok regions => exact .inl (recent_of_answer hnow hfirst)
      | error message => exact .inr ⟨rfl, .inr ⟨message, failed_of_answer hfirst⟩⟩
    change (if (resolveAgainstRegions (found first) addrs).any Option.isNone then _ else _ :
      Prog _).Wp _ _
    split
    · intro refreshed hrefreshed
      cases refreshed with
      | ok regions =>
          exact ⟨found first, regions, fillMissing_eq _ _ _, hcached, .inl (hrefreshed.2 rfl)⟩
      | error message =>
          refine ⟨found first, [], List.map_congr_left fun addr _ ↦ ?_, hcached,
            .inr ⟨rfl, .inr ⟨message, failed_of_answer hrefreshed⟩⟩⟩
          rw [resolveTwice, resolveOne_nil, Option.or_none]
          rfl
    · rename_i hall
      refine ⟨found first, [], map_resolveTwice_of_all hall _, hcached, .inr ⟨rfl, .inl ?_⟩⟩
      exact fun hnone ↦ hall (List.any_eq_true.mpr ⟨none, hnone, rfl⟩)

/-- The address of a module. -/
theorem wp_resolveModuleOffset {expression : Str} {post : Except Str UInt64 → Prop}
    (hparse : ∀ message, parseModuleOffset expression = .error message → post (.error message))
    (hok : ∀ regions, h.Own pid regions →
      post (resolveModuleOffset (m := Id) (.ok regions) pid expression))
    (herror : ∀ message, h.Failed pid message → post (.error message)) :
    (resolveModuleOffset (regions pid true) pid expression).Wp h.answers post := by
  unfold resolveModuleOffset
  cases hparsed : parseModuleOffset expression with
  | error message => exact hparse message hparsed
  | ok parsed =>
      obtain ⟨module, offset⟩ := parsed
      refine Prog.Wp.bind (wp_regions (fun regions hown ↦ ?_) herror)
      have hpost := hok regions hown
      rwa [resolveModuleOffset_of_parsed hparsed] at hpost

/-- The address an expression begins with. -/
theorem wp_expressionAddr (expression : Str) :
    (expressionAddr pid expression).Wp h.answers fun
      | .ok addr => parseNumericAddr (trim expression) = some addr ∨
          parseNumericAddr (trim expression) = none ∧ ∃ regions, h.Own pid regions ∧
            resolveModuleOffset (m := Id) (.ok regions) pid expression = .ok addr
      | .error message => h.ResolvesExpression pid expression (.error message) := by
  unfold expressionAddr
  cases hnumeric : parseNumericAddr (trim expression) with
  | some addr => exact .inl rfl
  | none =>
      refine wp_resolveModuleOffset (fun message hparse ↦ ⟨hnumeric, .inl hparse⟩)
        (fun regions hown ↦ ?_) fun message hfailed ↦ ⟨hnumeric, .inr (.inl hfailed)⟩
      cases haddr : resolveModuleOffset (m := Id) (.ok regions) pid expression with
      | ok addr => exact .inr ⟨rfl, regions, hown, haddr⟩
      | error message => exact ⟨hnumeric, .inr (.inr ⟨regions, hown, haddr⟩)⟩

theorem wp_resolveExpression (expression : Str) :
    (resolveExpression pid expression).Wp h.answers (h.ResolvesExpression pid expression) := by
  refine Prog.Wp.bind ((wp_expressionAddr expression).mono fun addr haddr ↦ ?_)
  cases addr with
  | error message => exact haddr
  | ok addr =>
      exact Prog.Wp.bind ((wp_resolve addr).mono fun map hmap ↦ ⟨rfl, rfl, haddr, hmap⟩)

/-- **Every method.** -/
theorem wp_program (call : Call) : call.program.Wp h.answers (h.Explains call) := by
  cases call with
  | list pid => exact Prog.Wp.bind wp_list
  | resolve pid addr => exact Prog.Wp.bind (wp_resolve addr)
  | resolveManyAddresses pid addrs => exact Prog.Wp.bind (wp_resolveManyAddresses addrs)
  | resolveExpression pid expression => exact Prog.Wp.bind (wp_resolveExpression expression)

/-! ## The run -/

/-- What remains of the call returns what is asked for. -/
def Meets (h : Span) (a : Answers) (post : Result → Prop) : Position → Prop
  | .running program => program.Wp a post
  | .reading now pid forceRefresh next =>
      ∀ result, a.regionsWith now pid forceRefresh result → (next result).Wp a post
  | .storing now pid forceRefresh regions next =>
      h.Own pid regions ∧
        ∀ result, a.regionsWith now pid forceRefresh result → (next result).Wp a post
  | .returned => True

/-- **The invariant of a call.**  Wherever it stands, it can still return whatever the method
returns by the answers it has got so far and any others. -/
def At (h : Span) (call : Call) (s : State) : Prop :=
  ∃ position, s.callers h.caller = some ⟨call, position⟩ ∧
    ∀ a post, h.answers.Sub a → call.program.Wp a post → h.Meets a post position

/-- Something happens during the call. -/
def snoc (h : Span) (e : Event) : Span := { h with during := h.during ++ [e] }

variable {h : Span} {call : Call} {s t : State} {e : Event}

theorem Own.snoc {pid : UInt32} {regions : List ParsedRegion} (hown : h.Own pid regions) :
    (h.snoc e).Own pid regions := by
  obtain ⟨readAt, hle, hread⟩ := hown
  exact ⟨readAt, hle, List.mem_append_left _ hread⟩

theorem answers_sub_snoc : h.answers.Sub (h.snoc e).answers where
  clock _ hnow := hnow
  regionsWith now pid forceRefresh result hresult := by
    cases result with
    | ok regions =>
        obtain ⟨⟨c, readAt, hread, hlt⟩, hown⟩ := hresult
        refine ⟨⟨c, readAt, ?_, hlt⟩, fun hforce ↦ (hown hforce).snoc⟩
        rw [snoc, ← List.append_assoc]
        exact List.mem_append_left _ hread
    | error message => exact List.mem_append_left _ hresult

theorem Meets.snoc {a : Answers} {post : Result → Prop} {position : Position}
    (hmeets : h.Meets a post position) : (h.snoc e).Meets a post position := by
  cases position with
  | storing now pid forceRefresh regions next => exact ⟨hmeets.1.snoc, hmeets.2⟩
  | running program | reading now pid forceRefresh next | returned => exact hmeets

/-- The others do not move a caller. -/
theorem callers_of_not_by (hstep : Step s e t) (hby : ¬ e.By h.caller) :
    t.callers h.caller = s.callers h.caller := by
  have hne : ∀ c, e.caller = some c → h.caller ≠ c := fun c hc heq ↦ hby (heq ▸ hc)
  cases hstep with
  | tick nanos => rfl
  | call _ _ | clock _ | hit _ _ | miss _ _ | read _ _ | readFailed _ _ | store _ | finish _ =>
      exact State.setCaller_of_ne _ (hne _ rfl) _ _

/-- An action of the caller. -/
theorem At.act (hat : h.At call s) {call' : Call} {position position' : Position} {cache : Cache}
    (hc : s.callers h.caller = some ⟨call', position⟩)
    (hmeets : ∀ a post, (h.snoc e).answers.Sub a → h.Meets a post position →
      (h.snoc e).Meets a post position') :
    (h.snoc e).At call ({ s with cache }.setCaller h.caller call' position') := by
  obtain ⟨position₀, hcaller, hall⟩ := hat
  obtain ⟨rfl, rfl⟩ := Caller.mk.inj (Option.some.inj (hcaller.symm.trans hc))
  exact ⟨position', State.setCaller_self _ _ _ _, fun a post hsub hwp ↦
    hmeets a post hsub (hall a post (answers_sub_snoc.trans hsub) hwp)⟩

/-- **The step lemma.** -/
theorem At.step (hat : h.At call s) (hloaded : Loaded (h.before ++ h.during) s)
    (hstart : h.start ≤ s.time) (hstep : Step s e t) : (h.snoc e).At call t := by
  by_cases hby : e.By h.caller
  · have hfresh := fun ret regions ↦ @Loaded.return_fresh _ _ _ _ hloaded hstep ret regions
    have hown : ∀ {pid : UInt32} {regions : List ParsedRegion},
        e = .read h.caller pid s.time regions → (h.snoc e).Own pid regions := by
      rintro pid regions rfl
      exact ⟨s.time, hstart, List.mem_append_right _ (.head _)⟩
    have hanswer : ∀ {now pid forceRefresh regions},
        e.return? = some ⟨h.caller, now, pid, forceRefresh, .ok regions⟩ →
        (forceRefresh = true → h.Own pid regions) →
        (h.snoc e).answers.regionsWith now pid forceRefresh (.ok regions) := by
      intro now pid forceRefresh regions hret hforced
      obtain ⟨c, readAt, hread, hlt⟩ := hfresh _ regions hret rfl
      refine ⟨⟨c, readAt, ?_, hlt⟩, fun hforce ↦ (hforced hforce).snoc⟩
      rw [snoc, ← List.append_assoc]
      exact List.mem_append_left _ hread
    cases hstep with
    | call call' hnone =>
        obtain ⟨position, hcaller, -⟩ := hat
        obtain rfl := Option.some.inj hby
        rw [hnone] at hcaller
        cases hcaller
    | tick nanos => cases hby
    | clock hc =>
        obtain rfl := Option.some.inj hby
        exact hat.act hc fun a post hsub hmeets ↦ hmeets _ (hsub.clock _ hstart)
    | hit hc hlookup =>
        obtain rfl := Option.some.inj hby
        refine hat.act hc fun a post hsub hmeets ↦ hmeets _ (hsub.regionsWith _ _ _ _ ?_)
        refine hanswer rfl fun hforce ↦ ?_
        rw [(lookup_eq_some hlookup).1] at hforce
        cases hforce
    | miss hc hlookup =>
        obtain rfl := Option.some.inj hby
        exact hat.act hc fun a post hsub hmeets ↦ hmeets
    | read regions hc =>
        obtain rfl := Option.some.inj hby
        exact hat.act hc fun a post hsub hmeets ↦ ⟨hown rfl, hmeets⟩
    | readFailed message hc =>
        obtain rfl := Option.some.inj hby
        exact hat.act hc fun a post hsub hmeets ↦
          hmeets _ (hsub.regionsWith _ _ _ _ (List.mem_append_right _ (.head _)))
    | @store c call' now pid forceRefresh next regions hc =>
        obtain rfl := Option.some.inj hby
        refine hat.act hc fun a post hsub hmeets ↦ hmeets.2 _ (hsub.regionsWith _ _ _ _ ?_)
        refine hanswer rfl fun hforce ↦ ?_
        rcases refresh_cases s.cache now pid forceRefresh regions with ⟨-, hr⟩ | ⟨hunforced, -⟩
        · rw [hr]
          exact hmeets.1
        · exact absurd hforce (by simp [hunforced])
    | finish hc =>
        obtain rfl := Option.some.inj hby
        exact hat.act hc fun a post hsub hmeets ↦ trivial
  · obtain ⟨position, hcaller, hall⟩ := hat
    exact ⟨position, (callers_of_not_by hstep hby).trans hcaller, fun a post hsub hwp ↦
      (hall a post (answers_sub_snoc.trans hsub) hwp).snoc⟩

/-- Time does not go back. -/
theorem time_le_of_step (hstep : Step s e t) : s.time ≤ t.time := by
  cases hstep with
  | tick nanos => exact Nat.le_add_right _ _
  | call _ _ | clock _ | hit _ _ | miss _ _ | read _ _ | readFailed _ _ | store _ | finish _ =>
      exact Nat.le_refl _

/-- **The run lemma.** -/
theorem at_of_run {time : Instant} {s₀ s₁ : State} {before during : List Event} {c : Nat}
    (hbefore : Run Step (.initial time) before s₀) (hcalled : Step s₀ (.called c call) s₁)
    (hduring : Run Step s₁ during s) :
    s₀.time ≤ s.time ∧ Span.At ⟨s₀.time, c, before ++ [.called c call], during⟩ call s := by
  induction hduring with
  | nil =>
      refine ⟨time_le_of_step hcalled, ?_⟩
      cases hcalled with
      | call call hnone => exact ⟨_, State.setCaller_self _ _ _ _, fun a post _ hwp ↦ hwp⟩
  | snoc hrun hstep ih =>
      obtain ⟨htime, hat⟩ := ih
      have hloaded := loaded ((hbefore.snoc hcalled).append hrun)
      exact ⟨htime.trans (time_le_of_step hstep), hat.step hloaded htime hstep⟩

/-- **What a method returns is explained by readings.**  Whoever else acts, and however the
maps file changes,

* a region that is found comes from a reading less than a second older than the call;
* an address that is not found is not in a reading that the call has made itself, or the call
  could not read;
* a batch is resolved by two readings at most;
* a module is located, and the regions are listed, by a reading of the call's own. -/
theorem answered {time : Instant} {s₀ s₁ : State} {before during : List Event} {c : Nat}
    {result : Result} (hbefore : Run Step (.initial time) before s₀)
    (hcalled : Step s₀ (.called c call) s₁) (hduring : Run Step s₁ during s)
    (hreturned : Step s (.returned c result) t) :
    Span.Explains ⟨s₀.time, c, before ++ [.called c call], during⟩ call result := by
  obtain ⟨-, position, hcaller, hall⟩ := at_of_run hbefore hcalled hduring
  cases hreturned with
  | finish hc =>
      obtain ⟨rfl, rfl⟩ := Caller.mk.inj (Option.some.inj (hcaller.symm.trans hc))
      exact hall _ _ ⟨fun _ h ↦ h, fun _ _ _ _ h ↦ h⟩ (wp_program _)

/-- A mapping that is new since another caller has listed the regions: the entry misses it, and
the call finds it in a reading of its own. -/
theorem answered_resolve : ∃ before during map, (∃ s₀ s₁ s t : State,
      Run Step (.initial 5) before s₀ ∧ Step s₀ (.called 1 (.resolve 7 0x2234)) s₁ ∧
        Run Step s₁ during s ∧ Step s (.returned 1 (.resolve (some map))) t) ∧
    Resolves ⟨14, 1, before ++ [.called 1 (.resolve 7 0x2234)], during⟩ 7 0x2234 (some map) := by
  let mapping (start stop : UInt64) : ParsedRegion :=
    ⟨start, stop, ⟨[], [], "r-xp".toList, [], [], 0, some "/lib/a.so".toList⟩⟩
  let text := mapping 0x1000 0x2000
  let data := mapping 0x2000 0x3000
  obtain ⟨es, callers, hfree, hlisted⟩ := exists_run_listed [text]
  let call : Call := .resolve 7 0x2234
  let cache : Cache := Function.update (fun _ ↦ none) 7 (some ⟨5, [text]⟩)
  let s₀ : State := ⟨cache, 14, callers⟩
  let s₁ := s₀.setCaller 1 call (.running call.program)
  have htick : Step ⟨cache, 5, callers⟩ (.ticked 9) s₀ := .tick 9
  have hcalled : Step s₀ (.called 1 call) s₁ := .call call hfree
  obtain ⟨s, t, hduring, hreturned⟩ : ∃ s t, Run Step s₁ [.clock 1 14, .hit 1 14 7 false [text],
      .missed 1 14 7 true, .read 1 7 14 [text, data], .stored 1 14 7 true [text, data]] s ∧
        Step s (.returned 1 (.resolve (some data.region))) t :=
    ⟨_, _, .cons (.clock (State.setCaller_self ..)) (.cons (.hit (State.setCaller_self ..) rfl)
      (.cons (.miss (State.setCaller_self ..) rfl) (.cons (.read _ (State.setCaller_self ..))
        (.single (.store (State.setCaller_self ..)))))), .finish (State.setCaller_self ..)⟩
  have hbefore := hlisted.snoc htick
  exact ⟨_, _, _, ⟨_, _, _, _, hbefore, hcalled, hduring, hreturned⟩,
    answered hbefore hcalled hduring hreturned⟩

end Span

end Pwatch.Maps
