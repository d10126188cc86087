import Pwatch.Slices
import Pwatch.Text.Lossy
import Pwatch.Text.Words

/-!
# The list of processes

`GET /processes`: a walk through `/proc`, the files of each process it comes by, and the filter,
the order and the limit of the answer.

A process is on the list exactly when the query asks for it and fewer than the limit of those that
the query asks for have a smaller id (`processes_listed`).
-/

namespace Pwatch.Server

open Text

/-! ## The walk -/

/-- `ProcessesQuery`. -/
structure ProcessesQuery where
  q : Option Str
  limit : Option Nat

/-- `ProcessView`. -/
structure ProcessView where
  pid : UInt32
  ppid : Option UInt32
  state : Option Str
  comm : Str
  cmdline : List Str
  exe : Option Str
deriving DecidableEq, Repr

/-- What the reads of the files in the directory of a process have given. -/
structure ProcFiles where
  status : Option Str
  comm : Option Str
  cmdline : Option (List UInt8)
  exe : Option Str

/-- An entry of `/proc`. -/
structure DirEntry where
  /-- Its name, when it is text. -/
  fileName : Option Str
  files : ProcFiles

/-- `parse_cmdline`. -/
def parseCmdline (bytes : List UInt8) : List Str :=
  ((bytes.splitOn 0).filter (· ≠ [])).map fromUtf8Lossy

/-- What stands behind the key in the first line that begins with it. -/
def statusField (key status : Str) : Option Str :=
  (lines status).findSome? (stripPrefix (key ++ [':']))

/-- `status_name`. -/
def statusName (status : Str) : Option Str := (statusField "Name".toList status).map trim

/-- `status_u32`. -/
def statusU32 (key status : Str) : Option UInt32 :=
  (statusField key status).bind fun value ↦ parseU32 (trim value)

/-- `status_string`. -/
def statusString (key status : Str) : Option Str := (statusField key status).map trim

/-- `read_process`. -/
def readProcess (pid : UInt32) (files : ProcFiles) : Option ProcessView :=
  some {
    pid
    ppid := files.status.bind (statusU32 "PPid".toList)
    state := files.status.bind (statusString "State".toList)
    comm := (((files.comm.map trim).filter (· ≠ [])).or (files.status.bind statusName)).getD
      (Nat.toDigits 10 pid.toNat)
    cmdline := (files.cmdline.map parseCmdline).getD []
    exe := files.exe }

/-- `process_matches`. -/
def processMatches (process : ProcessView) (needle : Str) : Bool :=
  contains (Nat.toDigits 10 process.pid.toNat) needle ||
    contains (toAsciiLowercase process.comm) needle ||
    process.cmdline.any (fun arg ↦ contains (toAsciiLowercase arg) needle) ||
    process.exe.any fun exe ↦ contains (toAsciiLowercase exe) needle

/-- One turn of the loop of `read_processes`. -/
def readEntry (needle : Option Str) (entry : Option DirEntry) : Option ProcessView := do
  let entry ← entry
  let fileName ← entry.fileName
  let pid ← parseU32 fileName
  let process ← readProcess pid entry.files
  if needle.all (processMatches process) then some process else none

/-- `read_processes`.  The directory cannot be read, or it has entries, and some of these cannot
be read. -/
def readProcesses (query : ProcessesQuery) (dir : Except Str (List (Option DirEntry))) :
    Except Str (List ProcessView) := do
  let needle := query.q.map toAsciiLowercase
  let limit := min (query.limit.getD 4096) 4096
  let entries ← dir
  let processes := entries.filterMap (readEntry needle)
  return (processes.mergeSort fun a b ↦ a.pid ≤ b.pid).take limit

/-! ## The files of a process -/

/-- A process as it is while its files are read. -/
structure Process where
  pid : UInt32
  ppid : UInt32
  state : Str
  name : Str
  args : List Str
  exe : Option Str

namespace Process

/-- A status file: in each line a key and its value. -/
def statusText (fields : List (Str × Str)) : Str :=
  unlines (fields.map fun (key, value) ↦ key ++ ':' :: '\t' :: value)

/-- The files of the process, as the kernel writes them. -/
structure Shows (p : Process) (files : ProcFiles) : Prop where
  status : ∃ fields, files.status = some (statusText fields) ∧
    (∀ field ∈ fields, ':' ∉ field.1 ∧ '\n' ∉ field.1 ∧ '\n' ∉ field.2) ∧
    fields.lookup "PPid".toList = some (Nat.toDigits 10 p.ppid.toNat) ∧
    fields.lookup "State".toList = some p.state
  comm : files.comm = some (p.name ++ ['\n'])
  cmdline : files.cmdline = some (p.args.flatMap fun arg ↦ bytes arg ++ [0])
  exe : files.exe = p.exe
  trimmed : (Trimmed p.state ∧ p.state ≠ []) ∧ Trimmed p.name ∧ p.name ≠ []
  args : ∀ arg ∈ p.args, '\x00' ∉ arg

/-- The process on the list. -/
def view (p : Process) : ProcessView where
  pid := p.pid
  ppid := some p.ppid
  state := some p.state
  comm := p.name
  cmdline := p.args.filter (· ≠ [])
  exe := p.exe

end Process

/-- A line is a line of its key alone. -/
theorem stripPrefix_line {key key' : Str} (hkey : ':' ∉ key) (hkey' : ':' ∉ key') (value : Str) :
    stripPrefix (key ++ [':']) (key' ++ ':' :: value) = if key = key' then some value else none := by
  split_ifs with h
  · rw [h, stripPrefix_eq_some, List.append_assoc]
    rfl
  · rw [Option.eq_none_iff_forall_not_mem]
    intro rest hrest
    rw [Option.mem_def, stripPrefix_eq_some, List.append_assoc, List.singleton_append] at hrest
    have hcut := splitOnce_append hkey' value
    rw [hrest, splitOnce_append hkey] at hcut
    exact h (Prod.mk.inj (Option.some.inj hcut)).1

/-- **The value of a key** is the one behind its first occurrence. -/
theorem statusField_statusText {key : Str} (hkey : ':' ∉ key) {fields : List (Str × Str)}
    (hfields : ∀ field ∈ fields, ':' ∉ field.1 ∧ '\n' ∉ field.1 ∧ '\n' ∉ field.2) :
    statusField key (Process.statusText fields) =
      (fields.lookup key).map fun value ↦ stripCarriageReturn ('\t' :: value) := by
  have hlines : ∀ line ∈ fields.map fun (key, value) ↦ key ++ ':' :: '\t' :: value,
      '\n' ∉ line := by
    intro line hline
    obtain ⟨field, hfield, rfl⟩ := List.mem_map.mp hline
    obtain ⟨-, h₁, h₂⟩ := hfields field hfield
    simp [h₁, h₂]
  rw [statusField, Process.statusText, lines_unlines hlines]
  clear hlines
  induction fields with
  | nil => rfl
  | cons field fields ih =>
      obtain ⟨key', value⟩ := field
      obtain ⟨hkey', -⟩ := hfields (key', value) List.mem_cons_self
      have hline : stripCarriageReturn (key' ++ ':' :: '\t' :: value) =
          key' ++ ':' :: stripCarriageReturn ('\t' :: value) := by
        rw [stripCarriageReturn_append _ (by simp)]
        exact congrArg _ (stripCarriageReturn_append [':'] (by simp))
      rw [List.map_cons, List.map_cons, List.findSome?_cons, hline, stripPrefix_line hkey hkey',
        List.lookup_cons]
      by_cases h : key = key'
      · simp [h]
      · have hne : (key == key') = false := beq_false_of_ne h
        rw [if_neg h, hne]
        exact ih fun field hfield ↦ hfields field (List.mem_cons_of_mem _ hfield)

/-- The tab in front of a value is no part of it. -/
theorem trim_tab {value : Str} (hvalue : Trimmed value) (hne : value ≠ []) :
    trim (stripCarriageReturn ('\t' :: value)) = value := by
  have hlast : ('\t' :: value).getLast? ≠ some '\r' := by
    intro h
    obtain ⟨c, rest, rfl⟩ := List.exists_cons_of_ne_nil hne
    rw [List.getLast?_cons_cons] at h
    cases hvalue.2 _ h
  have htab : Blank ['\t'] := by simp [Blank, isWhitespace]
  have hnone : Blank [] := by simp [Blank]
  rw [stripCarriageReturn, if_neg hlast]
  calc trim ('\t' :: value) = trim (['\t'] ++ value ++ []) := by
        rw [List.append_nil, List.singleton_append]
    _ = value := trim_eq htab hnone hvalue hne

/-- **The arguments of a process** come back, but for the empty ones. -/
theorem parseCmdline_args {args : List Str} (h : ∀ arg ∈ args, '\x00' ∉ arg) :
    parseCmdline (args.flatMap fun arg ↦ bytes arg ++ [0]) = args.filter (· ≠ []) := by
  have hpieces : ∀ piece ∈ args.map bytes, 0 ∉ piece := by
    intro piece hpiece
    obtain ⟨arg, harg, rfl⟩ := List.mem_map.mp hpiece
    exact zero_not_mem_bytes (h arg harg)
  have hsplit := splitOn_flatMap_concat hpieces
  rw [List.flatMap_map] at hsplit
  rw [parseCmdline, hsplit, List.filter_append, List.map_append, List.filter_map, List.map_map]
  have hback : fromUtf8Lossy ∘ bytes = id := funext fromUtf8Lossy_bytes
  rw [hback, List.map_id]
  simp [Function.comp_def, bytes_eq_nil_iff]

variable {p : Process} {files : ProcFiles}

/-- **What is read of a process.** -/
theorem Process.Shows.readProcess_eq (h : p.Shows files) :
    readProcess p.pid files = some p.view := by
  obtain ⟨fields, hstatus, hfields, hppid, hstate⟩ := h.status
  obtain ⟨⟨hstateTrimmed, hstateNe⟩, hname, hnameNe⟩ := h.trimmed
  have hppid' : statusU32 "PPid".toList (statusText fields) = some p.ppid := by
    rw [statusU32, statusField_statusText (by decide) hfields, hppid]
    refine (congrArg parseU32 (trim_tab (trimmed_toDigits _) Nat.toDigits_ne_nil)).trans ?_
    exact parseU32_toDigits p.ppid
  have hstate' : statusString "State".toList (statusText fields) = some p.state := by
    rw [statusString, statusField_statusText (by decide) hfields, hstate]
    exact congrArg some (trim_tab hstateTrimmed hstateNe)
  have hnone : Blank [] := by simp [Blank]
  have hfeed : Blank ['\n'] := by simp [Blank, isWhitespace]
  have hcomm : trim (p.name ++ ['\n']) = p.name := trim_eq hnone hfeed hname hnameNe
  have hfilter : (some p.name).filter (· ≠ []) = some p.name :=
    Option.filter_eq_some_iff.mpr ⟨rfl, decide_eq_true hnameNe⟩
  rw [readProcess, hstatus, h.comm, h.cmdline, h.exe]
  simp only [Option.bind_some, Option.map_some, hppid', hstate', hcomm, hfilter, Option.some_or,
    Option.getD_some, parseCmdline_args h.args, view]

/-! ## The list -/

/-- Some part of the text is the other, in upper or lower case. -/
def Mentions (q text : Str) : Prop := ∃ part, part <:+: text ∧ eqIgnoreAsciiCase part q = true

theorem contains_toAsciiLowercase_iff {q text : Str} :
    contains (toAsciiLowercase text) (toAsciiLowercase q) = true ↔ Mentions q text := by
  rw [contains, decide_eq_true_eq, toAsciiLowercase.eq_1 text, List.infix_map_iff]
  simp only [Mentions, eqIgnoreAsciiCase_iff]
  exact exists_congr fun part ↦ and_congr_right fun _ ↦ eq_comm

instance (q text : Str) : Decidable (Mentions q text) :=
  decidable_of_iff _ contains_toAsciiLowercase_iff

/-- What the query asks for. -/
def Asks (query : ProcessesQuery) (view : ProcessView) : Prop :=
  ∀ q ∈ query.q, Mentions q (Nat.toDigits 10 view.pid.toNat) ∨ Mentions q view.comm ∨
    (∃ arg ∈ view.cmdline, Mentions q arg) ∨ ∃ exe ∈ view.exe, Mentions q exe

theorem all_processMatches_iff {query : ProcessesQuery} {view : ProcessView} :
    (query.q.map toAsciiLowercase).all (processMatches view) = true ↔ Asks query view := by
  cases hq : query.q with
  | none => simp [Asks, hq]
  | some q =>
      have hpid : contains (Nat.toDigits 10 view.pid.toNat) (toAsciiLowercase q) = true ↔
          Mentions q (Nat.toDigits 10 view.pid.toNat) := by
        rw [← contains_toAsciiLowercase_iff, toAsciiLowercase_toDigits]
      have hexe : (view.exe.any fun exe ↦ contains (toAsciiLowercase exe) (toAsciiLowercase q)) =
          true ↔ ∃ exe ∈ view.exe, Mentions q exe := by
        cases view.exe <;> simp [contains_toAsciiLowercase_iff]
      have hargs : (view.cmdline.any fun arg ↦ contains (toAsciiLowercase arg)
          (toAsciiLowercase q)) = true ↔ ∃ arg ∈ view.cmdline, Mentions q arg := by
        simp [contains_toAsciiLowercase_iff]
      rw [Option.map_some, Option.all_some, processMatches, Bool.or_eq_true, Bool.or_eq_true,
        Bool.or_eq_true, hpid, contains_toAsciiLowercase_iff, hargs, hexe]
      simp [Asks, hq, or_assoc]

instance (query : ProcessesQuery) (view : ProcessView) : Decidable (Asks query view) :=
  decidable_of_iff _ all_processMatches_iff

/-- What is read for an entry of the directory. -/
def reading (entry : Option DirEntry) : Option ProcessView :=
  entry.bind fun entry ↦ (entry.fileName.bind parseU32).bind fun pid ↦ readProcess pid entry.files

/-- What is read in a walk through the directory. -/
def readings (entries : List (Option DirEntry)) : List ProcessView := entries.filterMap reading

theorem Process.Shows.reading_eq {p : Process} {entry : DirEntry} (h : p.Shows entry.files)
    (hname : entry.fileName = some (Nat.toDigits 10 p.pid.toNat)) :
    reading (some entry) = some p.view := by
  rw [reading, Option.bind_some, hname, Option.bind_some, parseU32_toDigits, Option.bind_some]
  exact h.readProcess_eq

theorem filterMap_readEntry (query : ProcessesQuery) (entries : List (Option DirEntry)) :
    entries.filterMap (readEntry (query.q.map toAsciiLowercase)) =
      (readings entries).filter fun view ↦ Asks query view := by
  rw [readings, List.filter_filterMap]
  refine List.filterMap_congr fun entry _ ↦ ?_
  cases entry with
  | none => rfl
  | some entry =>
      cases hpid : entry.fileName.bind parseU32 with
      | none => simp [readEntry, reading, hpid, ← Option.bind_assoc]
      | some pid =>
          have hall : ∀ view, (query.q.map toAsciiLowercase).all (processMatches view) = true ↔
              Asks query view := fun _ ↦ all_processMatches_iff
          simp [readEntry, reading, hpid, ← Option.bind_assoc, readProcess, Option.filter, hall]

/-- **The list of processes.**  When the directory names no process twice, the answer is in the
order of the ids, and a process is in it exactly when the query asks for it and fewer than the
limit of those it asks for have a smaller id.  Of a process that stays as it is all that is read
is what the kernel shows of it. -/
theorem processes_listed {entries : List (Option DirEntry)}
    (hnodup : ((readings entries).map fun view ↦ view.pid).Nodup) (query : ProcessesQuery) :
    ∃ views, readProcesses query (.ok entries) = .ok views ∧
      views.Pairwise (fun a b ↦ a.pid < b.pid) ∧
      (∀ view, view ∈ views ↔ view ∈ readings entries ∧ Asks query view ∧
        (readings entries).countP (fun v ↦ v.pid < view.pid ∧ Asks query v) <
          min (query.limit.getD 4096) 4096) ∧
      ∀ p entry, some entry ∈ entries → entry.fileName = some (Nat.toDigits 10 p.pid.toNat) →
        Process.Shows p entry.files → p.view ∈ readings entries ∧
          ∀ view ∈ readings entries, view.pid = p.pid → view = p.view := by
  let asked := (readings entries).filter fun view ↦ Asks query view
  have hasked : (asked.map fun view ↦ view.pid).Nodup := hnodup.sublist (List.filter_sublist.map _)
  have hsorted := pairwise_mergeSort_lt hasked
  refine ⟨_, rfl, ?_, fun view ↦ ?_, fun p entry hentry hname hshows ↦ ?_⟩
  · rw [filterMap_readEntry]
    exact hsorted.sublist (List.take_sublist ..)
  · rw [filterMap_readEntry, mem_take_iff_countP hsorted, List.mem_mergeSort,
      (List.mergeSort_perm asked _).countP_eq, List.countP_filter, List.mem_filter,
      decide_eq_true_eq, and_assoc]
    simp only [Bool.decide_and]
  · have hread : p.view ∈ readings entries :=
      List.mem_filterMap.mpr ⟨some entry, hentry, hshows.reading_eq hname⟩
    exact ⟨hread, fun view hview hpid ↦ List.inj_on_of_nodup_map hnodup hview hread hpid⟩

/-- The init process, found by a piece of its name. -/
theorem processes_listed_init : ∃ (p : Process) (entry : DirEntry) (views : List ProcessView),
    p.Shows entry.files ∧
      readProcesses ⟨some "INI".toList, none⟩ (.ok [none, some entry]) = .ok views ∧
        p.view ∈ views := by
  let p : Process := ⟨1, 0, "S (sleeping)".toList, "init".toList, ["/sbin/init".toList], none⟩
  let fields := [("Name".toList, "init".toList), ("State".toList, p.state),
    ("PPid".toList, "0".toList)]
  let entry : DirEntry := ⟨some "1".toList, some (Process.statusText fields),
    some (p.name ++ ['\n']), some (p.args.flatMap fun arg ↦ bytes arg ++ [0]), none⟩
  have hshows : p.Shows entry.files := {
    status := ⟨fields, rfl, by decide, by decide, rfl⟩
    comm := rfl
    cmdline := rfl
    exe := rfl
    trimmed := by decide
    args := by decide }
  have hname : entry.fileName = some (Nat.toDigits 10 p.pid.toNat) := by decide
  have hreadings : readings [none, some entry] = [p.view] := by
    rw [readings, List.filterMap_cons_none rfl,
      List.filterMap_cons_some (hshows.reading_eq hname)]
    rfl
  have hnodup : ((readings [none, some entry]).map fun view ↦ view.pid).Nodup := by
    simp [hreadings]
  obtain ⟨views, hviews, -, hlisted, hproc⟩ :=
    processes_listed hnodup ⟨some "INI".toList, none⟩
  refine ⟨p, entry, views, hshows, hviews, (hlisted p.view).mpr ⟨?_, ?_, ?_⟩⟩
  · exact (hproc p entry (by simp) hname hshows).1
  · decide
  · rw [hreadings]
    decide

end Pwatch.Server
