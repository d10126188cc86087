import Pwatch.Watch.Address
import Pwatch.Watch.Watcher

/-!
# The command line

The arguments of `main` in `src/main.rs`: `Args::into_mode`, and what `run_watch` makes of them
before it calls `start_watch`.
-/

namespace Pwatch.Cli

open Watch

/-! ## Arguments -/

/-- `WatchCommand`, without the buffer size that nobody reads. -/
structure WatchCommand where
  thread : Bool
  backtrace : Bool
  timeout : UInt64
  filter : Option Str
  pid : UInt32
  typeName : Str
  addr : Str
deriving DecidableEq, Repr

/-- `ServeCommand`. -/
structure ServeCommand where
  listen : Str
  hitBuffer : Nat
deriving DecidableEq, Repr

/-- `Command`. -/
inductive Command
  | watch (command : WatchCommand)
  | serve (command : ServeCommand)
deriving DecidableEq, Repr

/-- `Args`. -/
structure Args where
  command : Option Command
  thread : Bool
  backtrace : Bool
  timeout : UInt64
  filter : Option Str
  pid : Option UInt32
  typeName : Option Str
  addr : Option Str
deriving DecidableEq, Repr

/-- `Mode`. -/
inductive Mode
  | watch (command : WatchCommand)
  | serve (command : ServeCommand)
deriving DecidableEq, Repr

/-- `ok_or_else` of a positional argument. -/
def required {α : Type} (name : Str) : Option α → Except Str α
  | some value => .ok value
  | none => .error ("missing required argument: ".toList ++ name)

/-- `Args::into_mode`. -/
def Args.intoMode (args : Args) : Except Str Mode :=
  match args.command with
  | some (.serve command) => .ok (.serve command)
  | some (.watch command) => .ok (.watch command)
  | none => do
      let pid ← required "<PID>".toList args.pid
      let typeName ← required "<TYPE>".toList args.typeName
      let addr ← required "<ADDR>".toList args.addr
      return .watch {
        thread := args.thread
        backtrace := args.backtrace
        timeout := args.timeout
        filter := args.filter
        pid, typeName, addr }

/-- `run_watch`, up to `start_watch`. -/
def watchConfig (arch : Arch) (command : WatchCommand) : Except Filter.Failure WatchConfig := do
  let (ty, len) ← match parseWatchpointType command.typeName with
    | some typeLen => .ok typeLen
    | none => .error (.bail ("invalid watchpoint type: ".toList ++ command.typeName))
  let addr ← match parseAddr command.addr with
    | some addr => .ok addr
    | none => .error (.bail ("invalid address: ".toList ++ command.addr))
  let filter ← match command.filter with
    | none => .ok none
    | some text => (Filter.parse arch text).map some
  return {
    pid := command.pid
    thread := command.thread
    typeName := command.typeName
    addrText := command.addr
    ty
    addr
    len := len.toUInt64
    backtrace := command.backtrace
    filter }

/-- What `run_watch` makes of an error of `start_watch`. -/
def startFailed (message : Str) : Except Filter.Failure Unit :=
  if message = "no valid perf map".toList then .ok () else .error (.bail message)

/-- What `main` is to watch. -/
structure Prepared (arch : Arch) (args : Args) (command : WatchCommand) (config : WatchConfig) :
    Prop where
  mode : args.intoMode = .ok (.watch command)
  config : watchConfig arch command = .ok config

theorem Prepared.unique {arch : Arch} {args : Args} {command command' : WatchCommand}
    {config config' : WatchConfig} (h : Prepared arch args command config)
    (h' : Prepared arch args command' config') : command = command' ∧ config = config' := by
  obtain rfl : command = command' := by
    have hmode := h.mode.symm.trans h'.mode
    cases hmode
    rfl
  exact ⟨rfl, Except.ok.inj (h.config.symm.trans h'.config)⟩

/-- A watch is asked for with the subcommand, or without any and with all three positional
arguments. -/
def Args.AsksFor (args : Args) (command : WatchCommand) : Prop :=
  args.command = some (.watch command) ∨
    args.command = none ∧ args.pid = some command.pid ∧ args.typeName = some command.typeName ∧
      args.addr = some command.addr ∧ args.thread = command.thread ∧
        args.backtrace = command.backtrace ∧ args.timeout = command.timeout ∧
          args.filter = command.filter

theorem intoMode_eq_watch_iff {args : Args} {command : WatchCommand} :
    args.intoMode = .ok (.watch command) ↔ args.AsksFor command := by
  obtain ⟨thread, backtrace, timeout, filter, pid, typeName, addr⟩ := command
  cases hcommand : args.command with
  | some c => cases c <;> simp [Args.intoMode, Args.AsksFor, hcommand]
  | none =>
      cases hpid : args.pid <;> cases htype : args.typeName <;> cases haddr : args.addr <;>
        simp [Args.intoMode, Args.AsksFor, hcommand, hpid, htype, haddr, required, Except.bind,
          bind, pure, Except.pure]
      tauto

/-- The first positional argument that is missing. -/
def Args.Lacks (args : Args) (name : Str) : Prop :=
  args.command = none ∧
    (args.pid = none ∧ name = "<PID>".toList ∨
      args.pid ≠ none ∧ args.typeName = none ∧ name = "<TYPE>".toList ∨
        args.pid ≠ none ∧ args.typeName ≠ none ∧ args.addr = none ∧ name = "<ADDR>".toList)

theorem intoMode_of_lacks {args : Args} {name : Str} (h : args.Lacks name) :
    args.intoMode = .error ("missing required argument: ".toList ++ name) := by
  obtain ⟨hcommand, ⟨hpid, rfl⟩ | ⟨hpid, htype, rfl⟩ | ⟨hpid, htype, haddr, rfl⟩⟩ := h
  · simp only [Args.intoMode, hcommand, hpid]
    rfl
  · obtain ⟨pid, hpid⟩ := Option.ne_none_iff_exists'.mp hpid
    simp only [Args.intoMode, hcommand, hpid, htype]
    rfl
  · obtain ⟨pid, hpid⟩ := Option.ne_none_iff_exists'.mp hpid
    obtain ⟨typeName, htype⟩ := Option.ne_none_iff_exists'.mp htype
    simp only [Args.intoMode, hcommand, hpid, htype, haddr]
    rfl

end Pwatch.Cli
