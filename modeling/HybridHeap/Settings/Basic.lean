import HybridHeap.Settings.Size
import HybridHeap.Text.Quoted

/-!
# Settings of a collector

The tunables of a collector, their defaults, and the environment variables that override them.
-/

namespace HybridHeap

/-- When lite sweeps run relative to allocation. -/
inductive Mode where
  /-- Whenever the margin above the last sweep is used up. -/
  | normal
  /-- Before every allocation. -/
  | aggressive
  /-- Only once the trigger of the full collection is reached. -/
  | rare
  deriving DecidableEq

/-- What to do about a broken invariant that the collector cannot recover from. -/
inductive FatalPolicy where
  /-- End the process. -/
  | abort
  /-- Unwind, so that a test can observe it. -/
  | panic
  deriving DecidableEq

/-- The tunables of a collector. -/
structure Settings where
  /-- Bytes that may be allocated after a lite sweep before the next one is due. -/
  margin : Nat
  /-- Heap size at which a full collection is requested. -/
  trigger : Nat
  /-- The trigger never drops below this. -/
  minTrigger : Nat
  /-- Whether the trigger follows the size of the live heap. -/
  adaptive : Bool
  mode : Mode
  /-- The budget of the quarantine in bytes, if there is one. -/
  quarantine : Option Nat
  /-- Whether every full collection is reported. -/
  verbose : Bool
  fatalPolicy : FatalPolicy
  deriving DecidableEq

/-- Why a value for a setting was refused. -/
inductive ValueFault where
  | size (fault : Settings.SizeFault)
  | notBoolean
  /-- The text in lower case is the name of no mode. -/
  | unknownMode (text : String)
  deriving DecidableEq

/-- Why settings were refused. -/
inductive SettingsError where
  /-- The value given for a variable or an option cannot be read. -/
  | invalidValue (source value : String) (fault : ValueFault)
  /-- The trigger is below its minimum. -/
  | triggerBelowMinimum (minimum trigger : Nat)
  deriving DecidableEq

/-- What is said of a mode that there is not. -/
def unknownModeText (text : String) : String :=
  s!"unknown mode {Text.quoted text}, expected normal, aggressive or rare"

/-- The wording of a refused value. -/
def ValueFault.message : ValueFault → String
  | size fault => fault.message
  | notBoolean => "expected a boolean"
  | unknownMode text => unknownModeText text

/-- The wording of refused settings. -/
def SettingsError.message : SettingsError → String
  | invalidValue source value fault =>
    s!"invalid value {Text.quoted value} for {source}: {fault.message}"
  | triggerBelowMinimum minimum trigger =>
    s!"minimum trigger level ({minimum} bytes) exceeds trigger level ({trigger} bytes)"

namespace Mode

/-- The mode of the given name; upper case ASCII letters do not matter. The error is the text in
lower case. -/
def parse (text : String) : Except String Mode :=
  match text.map Char.toLower with
  | "normal" => .ok normal
  | "aggressive" => .ok aggressive
  | "rare" => .ok rare
  | other => .error other

/-- The mode as it is shown. -/
def toText : Mode → String
  | normal => "Normal"
  | aggressive => "Aggressive"
  | rare => "Rare"

end Mode

namespace Settings

/-- The budget of a quarantine that is asked for without a size. -/
def defaultQuarantine : Nat := 10 * 1024 * 1024

/-- The settings of a collector that nobody tuned. -/
def standard : Settings :=
  { margin := 10000
    trigger := 8 * 1024 * 1024
    minTrigger := 2 * 1024 * 1024
    adaptive := true
    mode := .normal
    quarantine := none
    verbose := false
    fatalPolicy := .abort }

/-- Settings are valid if the trigger is not below its minimum. -/
def validate (s : Settings) : Except SettingsError Settings :=
  if s.trigger < s.minTrigger then .error (.triggerBelowMinimum s.minTrigger s.trigger) else .ok s

/-- Read the size given for a variable or an option. -/
def readSize (source value : String) : Except SettingsError Nat :=
  (parseSize value).mapError fun fault => .invalidValue source value (.size fault)

/-- Read the mode given for a variable. -/
def readMode (source value : String) : Except SettingsError Mode :=
  (Mode.parse value).mapError fun text => .invalidValue source value (.unknownMode text)

/-- Read the truth value given for a variable. -/
def readFlag (source value : String) : Except SettingsError Bool :=
  match (Text.trim value).map Char.toLower with
  | "1" | "true" | "yes" | "on" => .ok true
  | "0" | "false" | "no" | "off" => .ok false
  | _ => .error (.invalidValue source value .notBoolean)

/-- Read the quarantine budget given for a variable: a word for off or on, or a size. -/
def readQuarantine (source value : String) : Except SettingsError (Option Nat) :=
  match (Text.trim value).map Char.toLower with
  | "0" | "off" | "false" | "no" => .ok none
  | "on" | "true" | "yes" => .ok (some defaultQuarantine)
  | _ => (readSize source value).map some

/-- Override one setting if its variable is set. -/
def override {α : Type} (lookup : String → Option String) (source : String)
    (read : String → String → Except SettingsError α) (set : Settings → α → Settings)
    (s : Settings) : Except SettingsError Settings :=
  match lookup source with
  | none => .ok s
  | some value => (read source value).map (set s)

/-- The names of the variables that override settings. -/
def variableNames : List String :=
  ["RCMARK_GC_MARGIN", "RCMARK_GC_TRIGGER", "RCMARK_GC_MIN_TRIGGER", "RCMARK_GC_MODE",
   "RCMARK_GC_ADAPTIVE", "RCMARK_GC_VERBOSE", "RCMARK_GC_QUARANTINE"]

/-- Override settings from the environment, which gives the value of a variable that is set. -/
def mergeEnvironment (s : Settings) (lookup : String → Option String) :
    Except SettingsError Settings := do
  let s ← override lookup "RCMARK_GC_MARGIN" readSize (fun s v => { s with margin := v }) s
  let s ← override lookup "RCMARK_GC_TRIGGER" readSize (fun s v => { s with trigger := v }) s
  let s ← override lookup "RCMARK_GC_MIN_TRIGGER" readSize
    (fun s v => { s with minTrigger := v }) s
  let s ← override lookup "RCMARK_GC_MODE" readMode (fun s v => { s with mode := v }) s
  let s ← override lookup "RCMARK_GC_ADAPTIVE" readFlag (fun s v => { s with adaptive := v }) s
  let s ← override lookup "RCMARK_GC_VERBOSE" readFlag (fun s v => { s with verbose := v }) s
  let s ← override lookup "RCMARK_GC_QUARANTINE" readQuarantine
    (fun s v => { s with quarantine := v }) s
  s.validate

end Settings

end HybridHeap
