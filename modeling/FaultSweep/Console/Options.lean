import FaultSweep.Campaign

/-!
# Arguments

What the arguments of the program ask for. Options may stand before and after the plan, their values
after a blank or an equals sign; after `--` everything is a plan. An option is given at most once.
-/

namespace FaultSweep.Console

/-- What the program is asked to do. -/
inductive Request where
  | run (plan : String) (overrides : SweepOverrides) (json : Bool)
  | status (plan : String) (overrides : SweepOverrides) (json : Bool)
  | teardown (plan : String) (json : Bool)
  | download (plan : String) (request : DownloadRequest) (json : Bool)
  | help
  | version

/-- The form of an option's value. -/
inductive Form where
  | path
  | text
  | word
  | count
  deriving DecidableEq

structure Arguments where
  plan : Option String
  texts : List (String × String)
  numbers : List (String × Nat)
  json : Bool

namespace Arguments

def none : Arguments := ⟨.none, [], [], false⟩

def text? (a : Arguments) (name : String) : Option String :=
  (a.texts.find? (·.1 = name)).map (·.2)

def number? (a : Arguments) (name : String) : Option Nat :=
  (a.numbers.find? (·.1 = name)).map (·.2)

def isGiven (a : Arguments) (name : String) : Bool :=
  (a.text? name).isSome || (a.number? name).isSome

end Arguments

/-- Why arguments are not read to their end. -/
inductive Stop where
  | help
  | misused

/-- A number of at most 32 bits. It may have either sign in front, so zero may have a minus. -/
def count? (cs : List Char) : Option Nat :=
  match cs with
  | '-' :: r => if (Decimal.ofDigits? r) = some 0 then some 0 else none
  | r => Decimal.unsigned? countBound r

def takeValue (name : String) (form : Form) (v : String) (a : Arguments) :
    Except Stop Arguments :=
  let number (n : Option Nat) : Except Stop Arguments :=
    match n with
    | some n => .ok { a with numbers := (name, n) :: a.numbers }
    | none => .error .misused
  if a.isGiven name then .error .misused
  else match form with
  | .path =>
    if v = "" then .error .misused else .ok { a with texts := (name, v) :: a.texts }
  | .text => .ok { a with texts := (name, v) :: a.texts }
  | .word => number (Decimal.unsigned? wordBound v.toList)
  | .count => number (count? v.toList)

def takePlan (v : String) (a : Arguments) : Except Stop Arguments :=
  if v = "" ∨ a.plan.isSome then .error .misused else .ok { a with plan := some v }

/-- Whether an argument is an option. A single dash is none. -/
def isOption (cs : List Char) : Bool := cs.head? = some '-' && 1 < cs.length

def takePlans : List String → Arguments → Except Stop Arguments
  | [], a => .ok a
  | v :: vs, a => match takePlan v a with
    | .error e => .error e
    | .ok a => takePlans vs a

/-- The name of a long option and the value attached to it. -/
def longParts (cs : List Char) : String × Option String :=
  let name := cs.takeWhile (· ≠ '=')
  (String.ofList name,
    if name.length < cs.length then some (String.ofList (cs.drop (name.length + 1))) else none)

/-- Reads the arguments of a command that has the given options beside `json`. -/
def readArguments (options : List (String × Form)) :
    List String → Arguments → Except Stop Arguments
  | [], a => .ok a
  | v :: vs, a =>
    match v.toList with
    | ['-', '-'] => takePlans vs a
    | '-' :: '-' :: cs =>
      match longParts cs, vs with
      | ("help", none), _ => .error .help
      | ("json", none), vs =>
        if a.json then .error .misused else readArguments options vs { a with json := true }
      | (name, attached), vs =>
        match options.find? (·.1 = name), attached, vs with
        | some o, some w, vs => match takeValue name o.2 w a with
          | .error e => .error e
          | .ok a => readArguments options vs a
        | some o, none, w :: ws =>
          if isOption w.toList then .error .misused
          else match takeValue name o.2 w a with
          | .error e => .error e
          | .ok a => readArguments options ws a
        | _, _, _ => .error .misused
    | '-' :: c :: _ => .error (if c = 'h' then .help else .misused)
    | _ => match takePlan v a with
      | .error e => .error e
      | .ok a => readArguments options vs a

def commandNames : List String := ["run", "status", "teardown", "download", "help"]

/-- Reads the arguments of a command that needs a plan. -/
def planned (options : List (String × Form)) (vs : List String)
    (request : String → Arguments → Request) : Option Request :=
  match readArguments options vs .none with
  | .error .help => some .help
  | .error .misused => none
  | .ok a => a.plan.map fun p => request p a

def runOptions : List (String × Form) :=
  [("ledger", .path), ("target", .word), ("max-passes", .word)]

def statusOptions : List (String × Form) := [("ledger", .path), ("target", .word)]

def downloadOptions : List (String × Form) :=
  [("payload", .text), ("depth", .count), ("address", .text)]

def overridesOf (a : Arguments) : SweepOverrides :=
  ⟨a.text? "ledger", a.number? "target", a.number? "max-passes"⟩

/-- What all arguments ask for; none if they are misused. -/
def read? : List String → Option Request
  | [] => none
  | "run" :: vs => planned runOptions vs fun p a => .run p (overridesOf a) a.json
  | "status" :: vs => planned statusOptions vs fun p a => .status p (overridesOf a) a.json
  | "teardown" :: vs => planned [] vs fun p a => .teardown p a.json
  | "download" :: vs =>
    planned downloadOptions vs fun p a =>
      .download p ⟨a.text? "payload", a.number? "depth", a.text? "address"⟩ a.json
  | ["help"] => some .help
  | ["help", name] => if commandNames.contains name then some .help else none
  | "--help" :: _ => some .help
  | "--version" :: _ => some .version
  | v :: _ => match v.toList with
    | '-' :: 'h' :: _ => some .help
    | '-' :: 'V' :: _ => some .version
    | _ => none

end FaultSweep.Console
