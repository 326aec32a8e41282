import HybridHeap.Workload.Run

/-!
# The command line

The program drives a collector with a workload and reports what it did. The settings come from the
environment and are overridden by options; the counts of the workload have defaults. Arguments that
cannot be understood end the program with status 1, settings that are refused with status 2.
-/

namespace HybridHeap.CommandLine

/-- The options that take a value. -/
inductive Opt where
  | rounds
  | chains
  | length
  | cycles
  | depth
  | weak
  | mode
  | trigger
  | minTrigger
  | margin
  /-- The only option whose value may be missing; of several values the first counts. -/
  | quarantine
  deriving DecidableEq

/-- The flags. -/
inductive Switch where
  | fixedTrigger
  | noCheck
  | verbose
  deriving DecidableEq

namespace Opt

/-- All options. -/
def all : List Opt :=
  [rounds, chains, length, cycles, depth, weak, mode, trigger, minTrigger, margin, quarantine]

/-- The name of an option, without its dashes. -/
def name : Opt → String
  | rounds => "rounds"
  | chains => "chains"
  | length => "length"
  | cycles => "cycles"
  | depth => "depth"
  | weak => "weak"
  | mode => "mode"
  | trigger => "trigger"
  | minTrigger => "min-trigger"
  | margin => "margin"
  | quarantine => "quarantine"

/-- An option with its dashes. -/
def spelling (o : Opt) : String := "--" ++ o.name

/-- The value of an option that is given none. -/
def standard? : Opt → Option String
  | rounds => some "4"
  | chains => some "64"
  | length => some "256"
  | cycles => some "1024"
  | depth => some "12"
  | weak => some "128"
  | _ => none

/-- The only values an option takes, if it is restricted. -/
def choices? : Opt → Option (List String)
  | mode => some ["normal", "aggressive", "rare"]
  | _ => none

/-- Whether the option may be given without a value. -/
def mayBeBare (o : Opt) : Bool := o == quarantine || o.standard?.isSome

/-- Whether the values of an occurrence are in order. -/
def accepts (o : Opt) (values : List String) : Bool :=
  (o.mayBeBare || !values.isEmpty) && o.choices?.all fun choices => values.all choices.contains

end Opt

/-- The flag of the given name. -/
def Switch.ofName? : String → Option Switch
  | "fixed-trigger" => some fixedTrigger
  | "no-check" => some noCheck
  | "verbose" => some verbose
  | _ => none

/-- What was found among the arguments. -/
structure Arguments where
  /-- The occurrences of options with their values, latest first. -/
  options : List (Opt × List String)
  switches : List Switch

/-- Why the arguments give nothing to run. -/
inductive Stop where
  /-- They cannot be understood. -/
  | misused
  | asksHelp
  | asksVersion
  deriving DecidableEq

namespace Arguments

/-- No arguments. -/
def empty : Arguments := ⟨[], []⟩

/-- Add a value to the latest occurrence of an option. -/
def addValue (a : Arguments) (value : String) : Arguments :=
  match a.options with
  | [] => a
  | (o, values) :: rest => { a with options := (o, values ++ [value]) :: rest }

/-- The option after whose latest value another one may follow. -/
def stillPending (o : Opt) : Option Opt := if o = .quarantine then some o else none

/-- Read one argument that begins with two dashes; further dashes do not matter. -/
def readLong (a : Arguments) (text : List Char) : Except Stop (Arguments × Option Opt) :=
  let body := text.dropWhile (· == '-')
  let name := String.ofList (body.takeWhile (· != '='))
  let value? := match body.dropWhile (· != '=') with
    | [] => none
    | value => some (String.ofList (value.dropWhile (· == '=')))
  match Opt.all.find? (·.name == name), Switch.ofName? name, value? with
  | some o, _, some value => .ok ({ a with options := (o, [value]) :: a.options }, none)
  | some o, _, none => .ok ({ a with options := (o, []) :: a.options }, some o)
  | _, some s, _ => .ok ({ a with switches := s :: a.switches }, none)
  | _, _, _ =>
    if name = "help" then .error .asksHelp
    else if name = "version" then .error .asksVersion
    else .error .misused

/-- Read the letters of one argument that begins with one dash. -/
def readShort (a : Arguments) : List Char → Except Stop Arguments
  | [] => .ok a
  | 'v' :: rest => readShort { a with switches := .verbose :: a.switches } rest
  | 'h' :: _ => .error .asksHelp
  | 'V' :: _ => .error .asksVersion
  | _ => .error .misused

/-- Read arguments. The option that still takes a value is given. -/
def read (a : Arguments) (pending : Option Opt) : List String → Except Stop Arguments
  | [] => .ok a
  | arg :: rest =>
    match arg.toList, pending with
    | ['-', '-'], _ => if rest.all (· == "--") then .ok a else .error .misused
    | '-' :: '-' :: text, _ => do
      let (a, pending) ← a.readLong text
      read a pending rest
    | '-' :: c :: text, _ => do read (← a.readShort (c :: text)) none rest
    | _, some o => read (a.addValue arg) (stillPending o) rest
    | _, none => .error .misused

/-- No option and no flag occurs twice, and every option has the values it wants. -/
def isValid (a : Arguments) : Bool :=
  (a.options.map Prod.fst).Nodup && a.switches.Nodup &&
    a.options.all fun (o, values) => o.accepts values

/-- Read all arguments. -/
def parse (args : List String) : Except Stop Arguments := do
  let a ← read empty none args
  if a.isValid then return a else throw .misused

/-- Whether an option is there. -/
def has (a : Arguments) (o : Opt) : Bool := a.options.any fun (other, _) => other == o

/-- The value of an option, if it was given one. -/
def given? (a : Arguments) (o : Opt) : Option String :=
  (a.options.lookup o).bind List.head?

/-- The value of an option, or its default. -/
def value? (a : Arguments) (o : Opt) : Option String := (a.given? o).or o.standard?

/-- The count given for an option, if it is a number. -/
def count? (a : Arguments) (o : Opt) : Option Nat :=
  (a.value? o).bind fun text => (Settings.parseNumber text.toList).toOption

/-- Override a size by an option, if it is given. -/
def overrideSize (a : Arguments) (o : Opt) (set : Settings → Nat → Settings) (s : Settings) :
    Except SettingsError Settings :=
  match a.given? o with
  | none => .ok s
  | some text => (Settings.readSize o.spelling text).map (set s)

/-- Override the settings by the options, in the order in which faults count. -/
def settings (a : Arguments) (s : Settings) : Except SettingsError Settings := do
  let s := match (a.given? .mode).map Mode.parse with
    | some (.ok mode) => { s with mode }
    | _ => s
  let s ← a.overrideSize .trigger (fun s v => { s with trigger := v }) s
  let s ← a.overrideSize .minTrigger (fun s v => { s with minTrigger := v }) s
  let s ← a.overrideSize .margin (fun s v => { s with margin := v }) s
  let s := if a.switches.contains .fixedTrigger then { s with adaptive := false } else s
  let s := if a.has .quarantine then { s with quarantine := some Settings.defaultQuarantine } else s
  let s ← a.overrideSize .quarantine (fun s v => { s with quarantine := some v }) s
  return if a.switches.contains .verbose then { s with verbose := true } else s

/-- The workload that the options describe, if every count is a number. -/
def workload? (a : Arguments) : Option Workload := do
  return {
    rounds := ← a.count? .rounds
    chains := ← a.count? .chains
    length := ← a.count? .length
    cycles := ← a.count? .cycles
    depth := ← a.count? .depth
    weak := ← a.count? .weak }

end Arguments

/-- What the program is to do. -/
structure Task where
  settings : Settings
  workload : Workload
  /-- Whether the heap is checked after every round. -/
  check : Bool

/-- Why arguments that can be understood give nothing to do. -/
inductive Refusal where
  | settings (error : SettingsError)
  /-- A count of the workload is not a number. -/
  | badCount
  deriving DecidableEq

/-- What the arguments ask for in an environment. Faults of settings come before bad counts, and the
settings are validated last. -/
def Arguments.task (a : Arguments) (environment : String → Option String) : Except Refusal Task :=
  match (Settings.standard.mergeEnvironment environment).bind a.settings with
  | .error e => .error (.settings e)
  | .ok settings =>
    match a.workload? with
    | none => .error .badCount
    | some workload =>
      match settings.validate with
      | .error e => .error (.settings e)
      | .ok settings => .ok { settings, workload, check := !a.switches.contains .noCheck }

/-- How the program ends: its exit status and the lines that it wrote. -/
structure Outcome where
  status : Nat
  output : List String
  errors : List String

/-- The program's name. -/
def programName : String := "rcmark"

/-- The program's name and version. -/
def versionText : String := programName ++ " 0.1.0"

/-- The program ends because of refused settings. -/
def refusedSettings (e : SettingsError) : Outcome := ⟨2, [], [programName ++ ": " ++ e.message]⟩

/-- The program ends without having run anything. -/
def stopped : Stop → Outcome
  | .misused => ⟨1, [], []⟩
  | .asksHelp => ⟨0, [], []⟩
  | .asksVersion => ⟨0, [versionText], []⟩

/-- How a workload that was run ends the program. A number that does not fit in a word ends it with
status 101, a fatal error with the status of an aborted process. -/
def ofExecution (check : Bool) (e : Workload.Execution) : Outcome :=
  match e.result with
  | .ok report =>
    let isClean := (e.isSound || !check) && report.nodesLeft = 0
    ⟨if isClean then 0 else 1, report.lines, []⟩
  | .error (.fatal _) => ⟨134, [], []⟩
  | .error .overflow => ⟨101, [], []⟩
  | .error _ => ⟨1, [], []⟩

/-- Run the program on arguments in an environment. -/
def run (args : List String) (environment : String → Option String) : Outcome :=
  match Arguments.parse args with
  | .error stop => stopped stop
  | .ok a =>
    match a.task environment with
    | .error (.settings e) => refusedSettings e
    | .error .badCount => stopped .misused
    | .ok { settings, workload, check } =>
      ofExecution check
        (workload.execute settings (Memory.Allocator.new none settings.quarantine) check)

end HybridHeap.CommandLine
