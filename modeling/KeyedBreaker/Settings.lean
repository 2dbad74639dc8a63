import KeyedBreaker.Config
import KeyedBreaker.Json.Basic
import KeyedBreaker.Log.Level
import KeyedBreaker.Text.Numeral

namespace KeyedBreaker

structure EnvironmentRules where
  /-- What the names of all variables start with. -/
  start : String
  caseSensitive : Bool

namespace EnvironmentRules

def prefixed (start : String) : EnvironmentRules := { start, caseSensitive := false }

def plain (rules : EnvironmentRules) (name : String) : String :=
  if rules.caseSensitive then name else Text.smalls name

/-- The values of an environment by the names of their fields. A variable that is set again keeps its
place and takes the new value; of two that have the same name here, the later one counts. -/
def values (rules : EnvironmentRules) (assigned : List (String × String)) :
    List (String × Json) :=
  let place (seen : List (String × String)) (v : String × String) :=
    if seen.any (·.1 = v.1) then seen.map fun w => if w.1 = v.1 then v else w else seen ++ [v]
  let start := (rules.plain rules.start).toList
  (assigned.foldl place []).filterMap fun (name, value) =>
    let name := (rules.plain name).toList
    if start.isPrefixOf name then some (String.ofList (name.drop start.length), .text value)
    else none

end EnvironmentRules

structure Settings where
  successThreshold : Int := 5
  failureThreshold : Int := 10
  breakDurationSeconds : Binary64 := Binary64.ofInt 5
  samplingDurationSeconds : Binary64 := Binary64.ofInt 10
  failureRatio : Binary64 := Binary64.ofRatio 1 2
  /-- What every storage key starts with. -/
  keyPrefix : String := "circuit_breaker:"
  logLevel : Log.Level := .info

namespace Settings

inductive Fault where
  | intParsing
  | intType
  | intFromFloat
  | intParsingSize
  | finiteNumber
  | floatParsing
  | floatType
  | stringType
  | literal
  | blankPrefix
  | unknownName
  | rule (broken : LimitError)
  deriving DecidableEq

namespace Fault

def ruleMessage : LimitError → String
  | .successThreshold => "success_threshold must be >= 1"
  | .failureThreshold => "failure_threshold must be >= 1"
  | .breakDuration => "break_duration_seconds must be >= 0"
  | .samplingDuration => "sampling_duration_seconds must be > 0"
  | .failureRatio => "failure_ratio must be within [0, 1]"

def code : Fault → String
  | .intParsing => "int_parsing"
  | .intType => "int_type"
  | .intFromFloat => "int_from_float"
  | .intParsingSize => "int_parsing_size"
  | .finiteNumber => "finite_number"
  | .floatParsing => "float_parsing"
  | .floatType => "float_type"
  | .stringType => "string_type"
  | .literal => "literal_error"
  | .unknownName => "extra_forbidden"
  | .blankPrefix | .rule _ => "value_error"

def message : Fault → String
  | .intParsing => "Input should be a valid integer, unable to parse string as an integer"
  | .intType => "Input should be a valid integer"
  | .intFromFloat => "Input should be a valid integer, got a number with a fractional part"
  | .intParsingSize => "Unable to parse input string as an integer, exceeded maximum size"
  | .finiteNumber => "Input should be a finite number"
  | .floatParsing => "Input should be a valid number, unable to parse string as a number"
  | .floatType => "Input should be a valid number"
  | .stringType => "Input should be a valid string"
  | .literal => "Input should be 'DEBUG', 'INFO', 'WARNING', 'ERROR' or 'CRITICAL'"
  | .unknownName => "Extra inputs are not permitted"
  | .blankPrefix => "Value error, storage_key_prefix must be non-empty"
  | .rule broken => "Value error, " ++ ruleMessage broken

end Fault

structure Problem where
  field : Option String
  fault : Fault
  deriving DecidableEq

def readInt : Json → Except Fault Int
  | .int n => .ok n
  | .bool b => .ok (if b then 1 else 0)
  | .real x =>
    if !x.isFinite then .error .finiteNumber
    else match x.toInt? with
      | none => .error .intFromFloat
      | some n => if -2 ^ 63 < n ∧ n < 2 ^ 63 then .ok n else .error .intParsingSize
  | .text s =>
    match Text.int? s with
    | some n => .ok n
    | none => .error .intParsing
  | _ => .error .intType

def readReal : Json → Except Fault Binary64
  | .int n => .ok (Binary64.ofInt n)
  | .bool b => .ok (Binary64.ofInt (if b then 1 else 0))
  | .real x => .ok x
  | .text s =>
    match Text.real? s with
    | some x => .ok x
    | none => .error .floatParsing
  | _ => .error .floatType

def readPrefix : Json → Except Fault String
  | .text s => if s.toList.all Text.isBlank then .error .blankPrefix else .ok s
  | _ => .error .stringType

def readLevel : Json → Except Fault Log.Level
  | .text s =>
    match Log.Level.ofName? (Log.Level.normalized s) with
    | some level => .ok level
    | none => .error .literal
  | _ => .error .literal

def checkRules (s : Settings) : Except LimitError Unit :=
  if s.successThreshold < 1 then .error .successThreshold
  else if s.failureThreshold < 1 then .error .failureThreshold
  else if s.breakDurationSeconds < Binary64.zero then .error .breakDuration
  else if s.samplingDurationSeconds ≤ Binary64.zero then .error .samplingDuration
  else if Binary64.zero ≤ s.failureRatio ∧ s.failureRatio ≤ Binary64.ofInt 1 then .ok ()
  else .error .failureRatio

def fieldNames : List String :=
  ["success_threshold", "failure_threshold", "break_duration_seconds", "sampling_duration_seconds",
    "failure_ratio", "storage_key_prefix", "log_level"]

def environmentRules : EnvironmentRules := .prefixed "CIRCUIT_BREAKER_"

def ofEnvironment (assigned : List (String × String)) : List (String × Json) :=
  environmentRules.values assigned

def value? (given environment : List (String × Json)) (field : String) : Option Json :=
  (Json.member? field (given.map fun (name, v) => (Text.smalls name, v))).or
    (Json.member? field environment)

def readField {α : Type} (sources : String → Option Json) (field : String) (default : α)
    (read : Json → Except Fault α) : Except Fault α :=
  match sources field with
  | none => .ok default
  | some v => read v

def problemOf {α : Type} (field : String) : Except Fault α → List Problem
  | .ok _ => []
  | .error fault => [⟨some field, fault⟩]

def unknownNames (given : List (String × Json)) : List Problem :=
  (given.filter fun (name, _) => !fieldNames.contains (Text.smalls name)).map
    fun (name, _) => ⟨some name, .unknownName⟩

/-- Settings from what is given and from the environment, or all problems in the order of the
fields. -/
def read (given : List (String × Json)) (assigned : List (String × String)) :
    Except (List Problem) Settings :=
  let source := value? given (ofEnvironment assigned)
  let d : Settings := {}
  let successThreshold := readField source "success_threshold" d.successThreshold readInt
  let failureThreshold := readField source "failure_threshold" d.failureThreshold readInt
  let breakDuration := readField source "break_duration_seconds" d.breakDurationSeconds readReal
  let sampling := readField source "sampling_duration_seconds" d.samplingDurationSeconds readReal
  let failureRatio := readField source "failure_ratio" d.failureRatio readReal
  let keyPrefix := readField source "storage_key_prefix" d.keyPrefix readPrefix
  let logLevel := readField source "log_level" d.logLevel readLevel
  match successThreshold, failureThreshold, breakDuration, sampling, failureRatio, keyPrefix,
    logLevel, unknownNames given with
  | .ok a, .ok b, .ok c, .ok e, .ok f, .ok g, .ok h, [] =>
    let s : Settings := ⟨a, b, c, e, f, g, h⟩
    match s.checkRules with
    | .ok () => .ok s
    | .error broken => .error [⟨none, .rule broken⟩]
  | _, _, _, _, _, _, _, unknown =>
    .error (problemOf "success_threshold" successThreshold ++
      problemOf "failure_threshold" failureThreshold ++
      problemOf "break_duration_seconds" breakDuration ++
      problemOf "sampling_duration_seconds" sampling ++ problemOf "failure_ratio" failureRatio ++
      problemOf "storage_key_prefix" keyPrefix ++ problemOf "log_level" logLevel ++ unknown)

def toConfig (s : Settings) : Config where
  successThreshold := s.successThreshold
  failureThreshold := s.failureThreshold
  breakDuration := s.breakDurationSeconds
  samplingDuration := s.samplingDurationSeconds
  failureRatio := s.failureRatio

end Settings

end KeyedBreaker
