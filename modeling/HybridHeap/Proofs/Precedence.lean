import Mathlib.Data.List.Basic
import HybridHeap.CommandLine
import HybridHeap.Proofs.WrittenSizes

/-!
# Options before variables

Most settings can be set by a variable of the environment, and many of these by an option as well.
`Overrides` says what they come to, setting by setting and without a word on how they are read: the
option decides if it is given, else the variable if it is set, else the default.

The program comes to these settings or to an error that tells what is wrong. But it reads and
validates the environment first, as if there were no options. A variable that cannot be read is
refused, and so is a trigger below its minimum that the environment comes to by itself, even where
the options override what is wrong.
-/

namespace HybridHeap

namespace Settings

/-! ## What texts mean -/

/-- What a text means as a value of a setting. -/
abbrev Meaning (α : Type) := String → α → Prop

/-- A text means a size if it spells it and the size fits in a word. -/
def IsSize : Meaning Nat := fun text n => Spells text n ∧ n ≤ Word.largest

/-- The words for the modes. -/
def modeWords : List (String × Mode) :=
  [("normal", .normal), ("aggressive", .aggressive), ("rare", .rare)]

/-- The words for truth values. -/
def flagWords : List (String × Bool) :=
  [("1", true), ("true", true), ("yes", true), ("on", true),
   ("0", false), ("false", false), ("no", false), ("off", false)]

/-- The words for a quarantine that there is not, and for one without a size. -/
def quarantineWords : List (String × Option Nat) :=
  [("0", none), ("off", none), ("false", none), ("no", none),
   ("on", some defaultQuarantine), ("true", some defaultQuarantine),
   ("yes", some defaultQuarantine)]

/-- The word that a text is, without the blanks around it and in lower case. -/
def wordOf (text : String) : String := (Text.trim text).map Char.toLower

/-- Blanks around the word for a mode matter. -/
def IsMode : Meaning Mode := fun text mode => (text.map Char.toLower, mode) ∈ modeWords

def IsFlag : Meaning Bool := fun text b => (wordOf text, b) ∈ flagWords

/-- What is not one of the words for a quarantine is a size. -/
def IsQuarantine : Meaning (Option Nat) := fun text q =>
  (wordOf text, q) ∈ quarantineWords ∨
    (∀ r, (wordOf text, r) ∉ quarantineWords) ∧ ∃ n, IsSize text n ∧ q = some n

/-- A reader reads just what a text means, and an error tells where the text is from and quotes
it. -/
structure Reads {α : Type} (read : String → String → Except SettingsError α)
    (means : Meaning α) : Prop where
  ok : ∀ source value v, read source value = .ok v ↔ means value v
  error : ∀ source value e, read source value = .error e →
    ∃ fault, e = .invalidValue source value fault

section

variable {α : Type} {read : String → String → Except SettingsError α} {means : Meaning α}

/-- No text means two things. -/
theorem Reads.unique (hr : Reads read means) {text : String} {v v' : α} (hv : means text v)
    (hv' : means text v') : v = v' := by
  have hread := (hr.ok "" text v).2 hv
  rw [(hr.ok "" text v').2 hv'] at hread
  exact (Except.ok.inj hread).symm

/-- To read what a text means it is enough to parse it. -/
theorem Reads.of_parse {ε : Type} {parse : String → Except ε α} {fault : ε → ValueFault}
    (hparse : ∀ text v, parse text = .ok v ↔ means text v) :
    Reads (fun source value =>
      (parse value).mapError fun e => .invalidValue source value (fault e)) means where
  ok := fun source value v => by
    rw [← hparse]
    cases parse value <;> simp [Except.mapError]
  error := fun source value e he => by
    cases hvalue : parse value with
    | ok v => simp [hvalue, Except.mapError] at he
    | error e =>
      rw [hvalue] at he
      cases he
      exact ⟨_, rfl⟩

end

theorem reads_size : Reads readSize IsSize := .of_parse fun _ _ => parseSize_eq_ok_iff

theorem reads_mode : Reads readMode IsMode := .of_parse fun text mode => by
  unfold Mode.parse IsMode modeWords
  generalize text.map Char.toLower = word
  split <;> simp_all [eq_comm]

theorem reads_flag : Reads readFlag IsFlag where
  ok := fun source value b => by
    unfold readFlag IsFlag wordOf flagWords
    generalize (Text.trim value).map Char.toLower = word
    split <;> simp_all [eq_comm]
  error := fun source value e he => by
    unfold readFlag at he
    split at he <;> cases he
    exact ⟨_, rfl⟩

theorem reads_quarantine : Reads readQuarantine IsQuarantine where
  ok := fun source value q => by
    have hsize := reads_size.ok source value
    unfold readQuarantine IsQuarantine wordOf quarantineWords
    generalize (Text.trim value).map Char.toLower = word
    split
    case h_8 =>
      -- None of the words, so what counts is the size.
      cases hread : readSize source value with
      | error e => simp_all [Except.map]
      | ok n =>
        have hn : ∀ m, IsSize value m ↔ n = m := fun m => by
          rw [← hsize, hread, Except.ok.injEq]
        simp_all [Except.map, eq_comm]
    all_goals simp [eq_comm]
  error := fun source value e he => by
    unfold readQuarantine at he
    split at he
    all_goals try cases he
    cases hread : readSize source value with
    | ok n => simp [hread, Except.map] at he
    | error e' =>
      rw [hread] at he
      cases he
      exact reads_size.error source value _ hread

/-! ## Layers -/

/-- What a setting is by what is asked for on its layers, topmost first: the first layer on which
anything is asked for decides. -/
def Decides {α : Type} (standard : α) : List (Option (α → Prop)) → α → Prop
  | [], v => v = standard
  | none :: rest, v => Decides standard rest v
  | some asks :: _, v => asks v

/-- A layer asks for one value at most. -/
def Single {α : Type} (layer : Option (α → Prop)) : Prop :=
  ∀ asks, layer = some asks → ∀ v v', asks v → asks v' → v = v'

section

variable {α : Type} {standard below v v' : α} {layer : Option (α → Prop)}
  {layers : List (Option (α → Prop))}

/-- Layers decide for one value if each of them asks for one. -/
theorem Decides.unique (hlayers : ∀ layer ∈ layers, Single layer)
    (hv : Decides standard layers v) (hv' : Decides standard layers v') : v = v' := by
  induction layers with
  | nil => exact hv.trans hv'.symm
  | cons layer rest ih =>
    cases layer with
    | none => exact ih (fun layer hl => hlayers layer (List.mem_cons_of_mem _ hl)) hv hv'
    | some asks => exact hlayers (some asks) List.mem_cons_self asks rfl v v' hv hv'

/-- What the layers below the topmost decide for takes the place of the default. -/
theorem decides_cons_iff (layer : Option (α → Prop)) (hlayers : ∀ layer ∈ layers, Single layer)
    (hbelow : Decides standard layers below) :
    Decides standard (layer :: layers) v ↔ Decides below [layer] v := by
  cases layer with
  | none => exact ⟨fun hv => Decides.unique hlayers hv hbelow, fun hv => Eq.subst hv.symm hbelow⟩
  | some asks => exact Iff.rfl

/-- Texts ask for one value each. -/
theorem Reads.single {read : String → String → Except SettingsError α} {means : Meaning α}
    (hr : Reads read means) (text? : Option String) : Single (text?.map means) := by
  intro asks ha v v' hv hv'
  obtain ⟨text, -, rfl⟩ := Option.map_eq_some_iff.1 ha
  exact hr.unique hv hv'

end

end Settings

/-! ## Computations that may fail -/

/-- A computation comes to a value of which `Q` holds, or to an error of which `E` holds. -/
def Yields {ε α : Type} (x : Except ε α) (Q : α → Prop) (E : ε → Prop) : Prop :=
  match x with
  | .ok a => Q a
  | .error e => E e

section

variable {ε α β : Type} {x : Except ε α} {f : α → Except ε β} {P Q : β → Prop} {R : α → Prop}
  {E : ε → Prop}

theorem Yields.bind (hx : Yields x R E) (hf : ∀ a, R a → Yields (f a) Q E) :
    Yields (x >>= f) Q E := by
  cases x with
  | ok a => exact hf a hx
  | error e => exact hx

theorem Yields.imp {S : α → Prop} (hx : Yields x R E) (h : ∀ a, R a → S a) : Yields x S E := by
  cases x with
  | ok a => exact h a hx
  | error e => exact hx

theorem Yields.of_ok {a : α} (hx : Yields x R E) (ha : x = .ok a) : R a := by
  rw [ha] at hx
  exact hx

theorem Yields.of_error {e : ε} (hx : Yields x R E) (he : x = .error e) : E e := by
  rw [he] at hx
  exact hx

end

namespace CommandLine

open Settings

variable {a : Arguments} {environment : String → Option String} {s s' e : Settings}

namespace Arguments

/-! ## What the options and the variables ask for -/

/-- What an option with a size asks for. -/
def sizeLayer (a : Arguments) (o : Opt) : Option (Nat → Prop) := (a.given? o).map IsSize

/-- What a flag asks for. -/
def switchLayer (a : Arguments) (flag : Switch) (b : Bool) : Option (Bool → Prop) :=
  if flag ∈ a.switches then some (· = b) else none

/-- What the option for the quarantine asks for, which need not have a size. -/
def quarantineLayer (a : Arguments) : Option (Option Nat → Prop) :=
  if a.has .quarantine then
    some fun q => match a.given? .quarantine with
      | none => q = some defaultQuarantine
      | some text => ∃ n, IsSize text n ∧ q = some n
  else none

/-- What a variable asks for. -/
def variableLayer {α : Type} (environment : String → Option String) (name : String)
    (means : Meaning α) : Option (α → Prop) :=
  (environment name).map means

/-- The settings are what the options and the variables ask for, the options first. -/
structure Overrides (a : Arguments) (environment : String → Option String) (s : Settings) :
    Prop where
  margin : Decides standard.margin
    [a.sizeLayer .margin, variableLayer environment "RCMARK_GC_MARGIN" IsSize] s.margin
  trigger : Decides standard.trigger
    [a.sizeLayer .trigger, variableLayer environment "RCMARK_GC_TRIGGER" IsSize] s.trigger
  minTrigger : Decides standard.minTrigger
    [a.sizeLayer .minTrigger, variableLayer environment "RCMARK_GC_MIN_TRIGGER" IsSize]
    s.minTrigger
  adaptive : Decides standard.adaptive
    [a.switchLayer .fixedTrigger false, variableLayer environment "RCMARK_GC_ADAPTIVE" IsFlag]
    s.adaptive
  mode : Decides standard.mode
    [(a.given? .mode).map IsMode, variableLayer environment "RCMARK_GC_MODE" IsMode] s.mode
  quarantine : Decides standard.quarantine
    [a.quarantineLayer, variableLayer environment "RCMARK_GC_QUARANTINE" IsQuarantine] s.quarantine
  verbose : Decides standard.verbose
    [a.switchLayer .verbose true, variableLayer environment "RCMARK_GC_VERBOSE" IsFlag] s.verbose
  fatalPolicy : s.fatalPolicy = standard.fatalPolicy

/-- The settings are what the variables ask for by themselves. -/
def FromEnvironment (environment : String → Option String) (s : Settings) : Prop :=
  empty.Overrides environment s

/-- The variables, each with whether a text can be read for it. -/
def readable : List (String × (String → Prop)) :=
  [("RCMARK_GC_MARGIN", fun text => ∃ n, IsSize text n),
   ("RCMARK_GC_TRIGGER", fun text => ∃ n, IsSize text n),
   ("RCMARK_GC_MIN_TRIGGER", fun text => ∃ n, IsSize text n),
   ("RCMARK_GC_MODE", fun text => ∃ mode, IsMode text mode),
   ("RCMARK_GC_ADAPTIVE", fun text => ∃ b, IsFlag text b),
   ("RCMARK_GC_VERBOSE", fun text => ∃ b, IsFlag text b),
   ("RCMARK_GC_QUARANTINE", fun text => ∃ q, IsQuarantine text q)]

/-- The options whose texts are sizes. -/
def sizeOptions : List Opt := [.trigger, .minTrigger, .margin, .quarantine]

/-- An error tells what is wrong: a text that cannot be read, with the variable or the option that
it is given for, or settings whose trigger is below their minimum. These may be the settings that
the environment comes to by itself. -/
inductive Blames (a : Arguments) (environment : String → Option String) : SettingsError → Prop where
  | ofVariable {name text : String} {canRead : String → Prop} {fault : ValueFault}
    (hname : (name, canRead) ∈ readable) (hset : environment name = some text)
    (hbad : ¬canRead text) : Blames a environment (.invalidValue name text fault)
  | ofOption {o : Opt} {text : String} {fault : ValueFault} (ho : o ∈ sizeOptions)
    (hgiven : a.given? o = some text) (hbad : ¬∃ n, IsSize text n) :
    Blames a environment (.invalidValue o.spelling text fault)
  | ofBounds {s : Settings} (hs : FromEnvironment environment s ∨ a.Overrides environment s)
    (hlt : s.trigger < s.minTrigger) :
    Blames a environment (.triggerBelowMinimum s.minTrigger s.trigger)

/-- What has to be so for a refusal. -/
def Refuses (a : Arguments) (environment : String → Option String) : Refusal → Prop
  | .settings e => a.Blames environment e
  | .badCount => a.workload? = none ∧ ∃ s, a.Overrides environment s

/-! ## What is asked for -/

theorem single_variableLayer {α : Type} {read : String → String → Except SettingsError α}
    {means : Meaning α} (hr : Reads read means) (name : String) :
    Single (variableLayer environment name means) :=
  hr.single _

theorem single_sizeLayer (o : Opt) : Single (a.sizeLayer o) := reads_size.single _

theorem single_switchLayer (flag : Switch) (b : Bool) : Single (a.switchLayer flag b) := by
  intro asks ha v v' hv hv'
  unfold switchLayer at ha
  split_ifs at ha
  cases ha
  exact Eq.trans hv (Eq.symm hv')

theorem single_quarantineLayer : Single a.quarantineLayer := by
  intro asks ha v v' hv hv'
  unfold quarantineLayer at ha
  split_ifs at ha
  cases ha
  cases hgiven : a.given? .quarantine with
  | none =>
    rw [hgiven] at hv hv'
    exact hv.trans hv'.symm
  | some text =>
    rw [hgiven] at hv hv'
    obtain ⟨n, hn, rfl⟩ := hv
    obtain ⟨n', hn', rfl⟩ := hv'
    rw [reads_size.unique hn hn']

/-- There is one thing that the options and the variables ask for together. -/
theorem Overrides.unique (hs : a.Overrides environment s) (hs' : a.Overrides environment s') :
    s = s' := by
  have hpair : ∀ {α : Type} {layer below : Option (α → Prop)}, Single layer → Single below →
      ∀ l ∈ [layer, below], Single l := by
    intro α layer below hlayer hbelow l hl
    simp only [List.mem_cons, List.not_mem_nil, or_false] at hl
    obtain rfl | rfl := hl
    · exact hlayer
    · exact hbelow
  have hsize : ∀ (o : Opt) (name : String),
      ∀ l ∈ [a.sizeLayer o, variableLayer environment name IsSize], Single l := fun o name =>
    hpair (single_sizeLayer o) (single_variableLayer reads_size name)
  have hflag : ∀ (flag : Switch) (b : Bool) (name : String),
      ∀ l ∈ [a.switchLayer flag b, variableLayer environment name IsFlag], Single l :=
    fun flag b name => hpair (single_switchLayer flag b) (single_variableLayer reads_flag name)
  have hmargin := Decides.unique (hsize _ _) hs.margin hs'.margin
  have htrigger := Decides.unique (hsize _ _) hs.trigger hs'.trigger
  have hminTrigger := Decides.unique (hsize _ _) hs.minTrigger hs'.minTrigger
  have hadaptive := Decides.unique (hflag _ _ _) hs.adaptive hs'.adaptive
  have hmode := Decides.unique
    (hpair (reads_mode.single _) (single_variableLayer reads_mode _)) hs.mode hs'.mode
  have hquarantine := Decides.unique
    (hpair single_quarantineLayer (single_variableLayer reads_quarantine _))
    hs.quarantine hs'.quarantine
  have hverbose := Decides.unique (hflag _ _ _) hs.verbose hs'.verbose
  have hfatal := hs.fatalPolicy.trans hs'.fatalPolicy.symm
  cases s
  cases s'
  congr

/-! ## The environment -/

section

variable {α : Type} {read : String → String → Except SettingsError α} {means : Meaning α}
  {name : String} {v : α} {set : Settings → α → Settings} {o : Opt} {n : Nat}

/-- Overriding a setting by its variable sets it to what the variable asks for. -/
theorem override_yields (hr : Reads read means)
    (hname : (name, fun text => ∃ v, means text v) ∈ readable) (hset : set s v = s) :
    Yields (override environment name read set s)
      (fun s' => ∃ v', Decides v [variableLayer environment name means] v' ∧ s' = set s v')
      (Blames a environment) := by
  unfold override variableLayer
  cases htext : environment name with
  | none => exact ⟨v, rfl, hset.symm⟩
  | some text =>
    dsimp only
    cases hread : read name text with
    | ok v' => exact ⟨v', (hr.ok name text v').1 hread, rfl⟩
    | error e =>
      obtain ⟨fault, rfl⟩ := hr.error name text e hread
      refine .ofVariable hname htext ?_
      rintro ⟨v', hv'⟩
      rw [(hr.ok name text v').2 hv'] at hread
      cases hread

/-- Overriding a size by its option sets it to what the option asks for. -/
theorem overrideSize_yields {set : Settings → Nat → Settings} (ho : o ∈ sizeOptions)
    (hset : set s n = s) :
    Yields (a.overrideSize o set s)
      (fun s' => ∃ n', Decides n [a.sizeLayer o] n' ∧ s' = set s n') (Blames a environment) := by
  unfold overrideSize sizeLayer
  cases htext : a.given? o with
  | none => exact ⟨n, rfl, hset.symm⟩
  | some text =>
    dsimp only
    cases hread : readSize o.spelling text with
    | ok n' => exact ⟨n', (reads_size.ok _ text n').1 hread, rfl⟩
    | error e =>
      obtain ⟨fault, rfl⟩ := reads_size.error _ text e hread
      refine .ofOption ho htext ?_
      rintro ⟨n', hn'⟩
      rw [(reads_size.ok _ text n').2 hn'] at hread
      cases hread

end

/-- Validating settings refuses a trigger below its minimum. -/
theorem validate_yields (hs : FromEnvironment environment s ∨ a.Overrides environment s) :
    Yields s.validate (fun s' => s' = s ∧ s.minTrigger ≤ s.trigger) (Blames a environment) := by
  unfold Settings.validate
  split_ifs with hlt
  · exact .ofBounds hs hlt
  · exact ⟨rfl, Nat.not_lt.1 hlt⟩

/-- The environment comes to what its variables ask for, with the trigger not below its minimum. -/
theorem mergeEnvironment_yields :
    Yields (standard.mergeEnvironment environment)
      (fun s => FromEnvironment environment s ∧ s.minTrigger ≤ s.trigger)
      (Blames a environment) := by
  unfold mergeEnvironment
  refine (override_yields reads_size (by simp [readable]) rfl).bind ?_
  rintro _ ⟨margin, hmargin, rfl⟩
  refine (override_yields reads_size (by simp [readable]) rfl).bind ?_
  rintro _ ⟨trigger, htrigger, rfl⟩
  refine (override_yields reads_size (by simp [readable]) rfl).bind ?_
  rintro _ ⟨minTrigger, hminTrigger, rfl⟩
  refine (override_yields reads_mode (by simp [readable]) rfl).bind ?_
  rintro _ ⟨mode, hmode, rfl⟩
  refine (override_yields reads_flag (by simp [readable]) rfl).bind ?_
  rintro _ ⟨adaptive, hadaptive, rfl⟩
  refine (override_yields reads_flag (by simp [readable]) rfl).bind ?_
  rintro _ ⟨verbose, hverbose, rfl⟩
  refine (override_yields reads_quarantine (by simp [readable]) rfl).bind ?_
  rintro _ ⟨quarantine, hquarantine, rfl⟩
  have hfrom : FromEnvironment environment
      { standard with margin, trigger, minTrigger, mode, adaptive, verbose, quarantine } :=
    ⟨hmargin, htrigger, hminTrigger, hadaptive, hmode, hquarantine, hverbose, rfl⟩
  refine (validate_yields (.inl hfrom)).imp ?_
  rintro _ ⟨rfl, hle⟩
  exact ⟨hfrom, hle⟩

/-! ## The options -/

/-- The settings are others with what the options ask for. -/
structure Amends (a : Arguments) (e s : Settings) : Prop where
  margin : Decides e.margin [a.sizeLayer .margin] s.margin
  trigger : Decides e.trigger [a.sizeLayer .trigger] s.trigger
  minTrigger : Decides e.minTrigger [a.sizeLayer .minTrigger] s.minTrigger
  adaptive : Decides e.adaptive [a.switchLayer .fixedTrigger false] s.adaptive
  mode : Decides e.mode [(a.given? .mode).map IsMode] s.mode
  quarantine : Decides e.quarantine [a.quarantineLayer] s.quarantine
  verbose : Decides e.verbose [a.switchLayer .verbose true] s.verbose
  fatalPolicy : s.fatalPolicy = e.fatalPolicy

/-- What the options amend of what the environment comes to is what both come to together. -/
theorem amends_iff_overrides (he : FromEnvironment environment e) :
    a.Amends e s ↔ a.Overrides environment s := by
  have hbelow : ∀ {α : Type} {read : String → String → Except SettingsError α}
      {means : Meaning α} {name : String}, Reads read means →
      ∀ l ∈ [variableLayer environment name means], Single l := by
    intro α read means name hr l hl
    obtain rfl := List.mem_singleton.1 hl
    exact single_variableLayer hr name
  have hmargin := decides_cons_iff (a.sizeLayer .margin) (v := s.margin)
    (hbelow reads_size) he.margin
  have htrigger := decides_cons_iff (a.sizeLayer .trigger) (v := s.trigger)
    (hbelow reads_size) he.trigger
  have hminTrigger := decides_cons_iff (a.sizeLayer .minTrigger) (v := s.minTrigger)
    (hbelow reads_size) he.minTrigger
  have hadaptive := decides_cons_iff (a.switchLayer .fixedTrigger false) (v := s.adaptive)
    (hbelow reads_flag) he.adaptive
  have hmode := decides_cons_iff ((a.given? .mode).map IsMode) (v := s.mode)
    (hbelow reads_mode) he.mode
  have hquarantine := decides_cons_iff a.quarantineLayer (v := s.quarantine)
    (hbelow reads_quarantine) he.quarantine
  have hverbose := decides_cons_iff (a.switchLayer .verbose true) (v := s.verbose)
    (hbelow reads_flag) he.verbose
  constructor
  · exact fun h => ⟨hmargin.2 h.margin, htrigger.2 h.trigger, hminTrigger.2 h.minTrigger,
      hadaptive.2 h.adaptive, hmode.2 h.mode, hquarantine.2 h.quarantine, hverbose.2 h.verbose,
      h.fatalPolicy.trans he.fatalPolicy⟩
  · exact fun h => ⟨hmargin.1 h.margin, htrigger.1 h.trigger, hminTrigger.1 h.minTrigger,
      hadaptive.1 h.adaptive, hmode.1 h.mode, hquarantine.1 h.quarantine, hverbose.1 h.verbose,
      h.fatalPolicy.trans he.fatalPolicy.symm⟩

/-- The values of an option that is given one are found among the arguments. -/
theorem mem_options_of_given {o : Opt} {text : String} (hgiven : a.given? o = some text) :
    ∃ values, (o, values) ∈ a.options ∧ text ∈ values := by
  obtain ⟨values, hlookup, hhead⟩ := Option.bind_eq_some_iff.1 hgiven
  obtain ⟨before, after, hoptions, -⟩ := List.lookup_eq_some_iff.1 hlookup
  exact ⟨values, by simp [hoptions], List.mem_of_head? hhead⟩

theorem has_of_given {o : Opt} {text : String} (hgiven : a.given? o = some text) :
    a.has o = true := by
  obtain ⟨values, hmem, -⟩ := mem_options_of_given hgiven
  exact List.any_eq_true.2 ⟨(o, values), hmem, beq_self_eq_true o⟩

/-- The mode that an option gives can be read, for the option takes no other. -/
theorem mode_of_given {text : String} (hvalid : a.isValid = true)
    (hgiven : a.given? .mode = some text) :
    ∃ mode, Mode.parse text = .ok mode ∧ IsMode text mode := by
  obtain ⟨values, hoptions, hmem⟩ := mem_options_of_given hgiven
  have haccepts : Opt.accepts .mode values = true := by
    unfold isValid at hvalid
    simp only [Bool.and_eq_true, List.all_eq_true] at hvalid
    exact hvalid.2 (.mode, values) hoptions
  have hchoice : text ∈ ["normal", "aggressive", "rare"] := by
    unfold Opt.accepts Opt.choices? at haccepts
    simp only [Option.all_some, Bool.and_eq_true, List.all_eq_true] at haccepts
    exact List.contains_iff_mem.1 (haccepts.2 text hmem)
  simp only [List.mem_cons, List.not_mem_nil, or_false] at hchoice
  obtain rfl | rfl | rfl := hchoice
  · exact ⟨.normal, by decide +kernel, by unfold IsMode; decide +kernel⟩
  · exact ⟨.aggressive, by decide +kernel, by unfold IsMode; decide +kernel⟩
  · exact ⟨.rare, by decide +kernel, by unfold IsMode; decide +kernel⟩

/-- A flag sets what it asks for. -/
theorem flag_amends (flag : Switch) (b : Bool) {b' : Bool} (set : Settings → Bool → Settings)
    (hset : set s b' = s) :
    ∃ v, Decides b' [a.switchLayer flag b] v ∧
      (if a.switches.contains flag then set s b else s) = set s v := by
  unfold switchLayer
  by_cases hflag : flag ∈ a.switches
  · exact ⟨b, by rw [if_pos hflag]; rfl, if_pos (List.contains_iff_mem.2 hflag)⟩
  · refine ⟨b', by rw [if_neg hflag]; rfl, ?_⟩
    rw [if_neg fun hmem => hflag (List.contains_iff_mem.1 hmem), hset]

/-- The quarantine is set to what its option asks for, with a size or without. -/
theorem quarantine_yields :
    Yields (a.overrideSize .quarantine (fun s v => { s with quarantine := some v })
        (if a.has .quarantine then { s with quarantine := some defaultQuarantine } else s))
      (fun s' => ∃ q, Decides s.quarantine [a.quarantineLayer] q ∧ s' = { s with quarantine := q })
      (Blames a environment) := by
  unfold overrideSize quarantineLayer
  cases hhas : a.has .quarantine with
  | false =>
    -- An option that is not there is not given a size.
    have hnone : a.given? .quarantine = none := by
      refine Option.eq_none_iff_forall_ne_some.2 fun text htext => ?_
      rw [has_of_given htext] at hhas
      cases hhas
    rw [hnone]
    exact ⟨s.quarantine, rfl, rfl⟩
  | true =>
    cases htext : a.given? .quarantine with
    | none => exact ⟨some defaultQuarantine, rfl, rfl⟩
    | some text =>
      dsimp only
      cases hread : readSize (Opt.spelling .quarantine) text with
      | ok n => exact ⟨some n, ⟨n, (reads_size.ok _ text n).1 hread, rfl⟩, rfl⟩
      | error e =>
        obtain ⟨fault, rfl⟩ := reads_size.error _ text e hread
        refine .ofOption (by simp [sizeOptions]) htext ?_
        rintro ⟨n, hn⟩
        rw [(reads_size.ok _ text n).2 hn] at hread
        cases hread

/-- Options that are valid amend the settings. -/
theorem settings_yields (hvalid : a.isValid = true) :
    Yields (a.settings e) (a.Amends e) (Blames a environment) := by
  unfold settings
  dsimp only
  -- The mode is set in a branch of its own, with the trigger after it in both branches.
  refine Yields.bind (R := fun s => ∃ mode trigger,
    Decides e.mode [(a.given? .mode).map IsMode] mode ∧
    Decides e.trigger [a.sizeLayer .trigger] trigger ∧ s = { e with mode, trigger }) ?_ ?_
  · have htrigger : ∀ mode, Decides e.mode [(a.given? .mode).map IsMode] mode →
        Yields (a.overrideSize .trigger (fun s v => { s with trigger := v }) { e with mode })
          (fun s => ∃ mode trigger, Decides e.mode [(a.given? .mode).map IsMode] mode ∧
            Decides e.trigger [a.sizeLayer .trigger] trigger ∧ s = { e with mode, trigger })
          (Blames a environment) := fun mode hmode =>
      (overrideSize_yields (by simp [sizeOptions]) rfl).imp fun _ ⟨trigger, htrigger, heq⟩ =>
        ⟨mode, trigger, hmode, htrigger, heq⟩
    cases htext : a.given? .mode with
    | none =>
      rw [htext] at htrigger
      exact htrigger e.mode rfl
    | some text =>
      obtain ⟨mode, hparse, hmode⟩ := mode_of_given hvalid htext
      rw [htext] at htrigger
      simp only [Option.map_some, hparse]
      exact htrigger mode hmode
  rintro _ ⟨mode, trigger, hmode, htrigger, rfl⟩
  refine (overrideSize_yields (by simp [sizeOptions]) rfl).bind ?_
  rintro _ ⟨minTrigger, hminTrigger, rfl⟩
  refine (overrideSize_yields (by simp [sizeOptions]) rfl).bind ?_
  rintro _ ⟨margin, hmargin, rfl⟩
  obtain ⟨adaptive, hadaptive, hadaptiveEq⟩ := flag_amends (a := a) .fixedTrigger false
    (s := { e with mode, trigger, minTrigger, margin }) (fun s adaptive => { s with adaptive }) rfl
  dsimp only at hadaptiveEq ⊢
  rw [hadaptiveEq]
  refine quarantine_yields.bind ?_
  rintro _ ⟨quarantine, hquarantine, rfl⟩
  obtain ⟨verbose, hverbose, hverboseEq⟩ := flag_amends (a := a) .verbose true
    (s := { e with mode, trigger, minTrigger, margin, adaptive, quarantine })
    (fun s verbose => { s with verbose }) rfl
  dsimp only at hverboseEq ⊢
  rw [hverboseEq]
  exact ⟨hmargin, htrigger, hminTrigger, hadaptive, hmode, hquarantine, hverbose, rfl⟩

/-- What an error tells is wrong is so: not all can be as it has to be. -/
theorem Blames.wrong {fault : SettingsError} (hb : Blames a environment fault)
    (he : FromEnvironment environment e) (hebounds : e.minTrigger ≤ e.trigger)
    (hs : a.Overrides environment s) (hbounds : s.minTrigger ≤ s.trigger) : False := by
  cases hb with
  | @ofVariable name text canRead fault hname hset hbad =>
    have hread : ∀ {α : Type} {standard v : α} {means : Meaning α} {layer},
        layer = none → Decides standard [layer, variableLayer environment name means] v →
        ∃ v, means text v := by
      rintro α standard v means _ rfl hv
      unfold variableLayer at hv
      rw [hset] at hv
      exact ⟨v, hv⟩
    simp only [readable, List.mem_cons, Prod.mk.injEq, List.not_mem_nil, or_false] at hname
    obtain ⟨rfl, rfl⟩ | ⟨rfl, rfl⟩ | ⟨rfl, rfl⟩ | ⟨rfl, rfl⟩ | ⟨rfl, rfl⟩ | ⟨rfl, rfl⟩ |
      ⟨rfl, rfl⟩ := hname
    · exact hbad (hread rfl he.margin)
    · exact hbad (hread rfl he.trigger)
    · exact hbad (hread rfl he.minTrigger)
    · exact hbad (hread rfl he.mode)
    · exact hbad (hread rfl he.adaptive)
    · exact hbad (hread rfl he.verbose)
    · exact hbad (hread rfl he.quarantine)
  | @ofOption o text fault ho hgiven hbad =>
    have hread : ∀ {standard n : Nat} {layer},
        Decides standard [a.sizeLayer o, layer] n → ∃ n, IsSize text n := by
      intro standard n layer hn
      unfold sizeLayer at hn
      rw [hgiven] at hn
      exact ⟨n, hn⟩
    simp only [sizeOptions, List.mem_cons, List.not_mem_nil, or_false] at ho
    obtain rfl | rfl | rfl | rfl := ho
    · exact hbad (hread hs.trigger)
    · exact hbad (hread hs.minTrigger)
    · exact hbad (hread hs.margin)
    · have hquarantine := hs.quarantine
      unfold quarantineLayer at hquarantine
      rw [if_pos (has_of_given hgiven), hgiven] at hquarantine
      obtain ⟨n, hn, -⟩ := hquarantine
      exact hbad ⟨n, hn⟩
  | @ofBounds t ht hlt =>
    -- There is one such settings each, and those are in bounds.
    have hin : t.minTrigger ≤ t.trigger := by
      obtain ht | ht := ht
      · rw [Overrides.unique ht he]
        exact hebounds
      · rw [ht.unique hs]
        exact hbounds
    omega

/-- Arguments that can be understood are valid. -/
theorem isValid_of_parse {args : List String} (hargs : parse args = .ok a) : a.isValid = true := by
  unfold parse at hargs
  cases hread : read empty none args with
  | error stop =>
    rw [hread] at hargs
    cases hargs
  | ok found =>
    rw [hread] at hargs
    change (if found.isValid then Except.ok found else Except.error Stop.misused) = .ok a at hargs
    split_ifs at hargs with hvalid
    cases hargs
    exact hvalid

/-- The options amend what the environment comes to. -/
theorem mergeEnvironment_settings_yields (hvalid : a.isValid = true)
    (environment : String → Option String) :
    Yields ((standard.mergeEnvironment environment).bind a.settings)
      (fun s => (∃ e, FromEnvironment environment e ∧ e.minTrigger ≤ e.trigger) ∧
        a.Overrides environment s) (a.Blames environment) :=
  mergeEnvironment_yields.bind fun e ⟨hfrom, hebounds⟩ =>
    (settings_yields hvalid).imp fun _ hs =>
      ⟨⟨e, hfrom, hebounds⟩, (amends_iff_overrides hfrom).1 hs⟩

/-- Valid arguments come to a task for what they ask for, or are refused for a reason. -/
theorem task_yields (hvalid : a.isValid = true) (environment : String → Option String) :
    Yields (a.task environment)
      (fun task => (∃ e, FromEnvironment environment e ∧ e.minTrigger ≤ e.trigger) ∧
        a.Overrides environment task.settings ∧ task.settings.minTrigger ≤ task.settings.trigger ∧
        a.workload? = some task.workload ∧ task.check = !a.switches.contains .noCheck)
      (a.Refuses environment) := by
  have hsettings := mergeEnvironment_settings_yields hvalid environment
  -- The settings come first, then the counts, and the bounds are checked last.
  unfold task
  cases hs : (standard.mergeEnvironment environment).bind a.settings with
  | error fault => exact hsettings.of_error hs
  | ok s =>
    obtain ⟨hfrom, hover⟩ := hsettings.of_ok hs
    dsimp only
    cases hworkload : a.workload? with
    | none => exact ⟨hworkload, s, hover⟩
    | some workload =>
      dsimp only
      have hbounds : Yields s.validate _ (a.Blames environment) := validate_yields (.inr hover)
      cases hs' : s.validate with
      | error fault => exact hbounds.of_error hs'
      | ok s' =>
        obtain ⟨rfl, hle⟩ := hbounds.of_ok hs'
        exact ⟨hfrom, hover, hle, rfl, rfl⟩

end Arguments

end CommandLine

end HybridHeap
