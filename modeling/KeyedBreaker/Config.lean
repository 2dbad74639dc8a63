import KeyedBreaker.Failure.Basic

namespace KeyedBreaker

structure Limits where
  /-- Successful probes in a row that close a half-open circuit. -/
  successThreshold : Int := 5
  /-- Failures in one window that open a closed circuit, if the ratio is reached too. -/
  failureThreshold : Int := 10
  /-- Seconds that a circuit stays open. -/
  breakDuration : Binary64 := Binary64.ofInt 5
  /-- Seconds in one window. -/
  samplingDuration : Binary64 := Binary64.ofInt 10
  /-- The least share of failures among the calls of a window that opens a closed circuit. -/
  failureRatio : Binary64 := Binary64.ofRatio 1 2

inductive LimitError where
  | successThreshold
  | failureThreshold
  | breakDuration
  | samplingDuration
  | failureRatio
  deriving DecidableEq

namespace LimitError

def message : LimitError → String
  | .successThreshold => "success_threshold must be >= 1"
  | .failureThreshold => "failure_threshold must be >= 1"
  | .breakDuration => "break_duration must be >= 0"
  | .samplingDuration => "sampling_duration must be > 0"
  | .failureRatio => "failure_ratio must be within [0, 1]"

end LimitError

namespace Limits

/-- Refuses limits by the first rule that they break. A duration that is not a number breaks none,
a ratio that is not a number is not within its bounds. -/
def check (l : Limits) : Except LimitError Unit :=
  if l.successThreshold < 1 then .error .successThreshold
  else if l.failureThreshold < 1 then .error .failureThreshold
  else if l.breakDuration < Binary64.zero then .error .breakDuration
  else if l.samplingDuration ≤ Binary64.zero then .error .samplingDuration
  else if Binary64.zero ≤ l.failureRatio ∧ l.failureRatio ≤ Binary64.ofInt 1 then .ok ()
  else .error .failureRatio

end Limits

/-- A rule of the user's own for counting failures. It may fail itself. -/
structure Classifier where
  apply : Failure → Except Failure Bool

namespace Classifier

def occursIn (part : List Char) : List Char → Bool
  | [] => part.isEmpty
  | c :: cs => part.isPrefixOf (c :: cs) || occursIn part cs

def statusAtLeast (least : Int) : Classifier where
  apply
    | .response status => .ok (least ≤ status)
    | _ => .ok false

def constant (counts : Bool) : Classifier where
  apply _ := .ok counts

def classNamed (name : String) : Classifier where
  apply f := .ok (f.cls.name = name)

def messageContains (part : String) : Classifier where
  apply f := .ok (occursIn part.toList f.message.toList)

def raising (f : Failure) : Classifier where
  apply _ := .error f

end Classifier

structure Config extends Limits where
  expected : List FailureClass := [.general]
  excluded : List FailureClass := []
  /-- Replaces the two lists of classes. -/
  classifier : Option Classifier := none

namespace Config

def counts (c : Config) (f : Failure) : Except Failure Bool :=
  match c.classifier with
  | some rule => rule.apply f
  | none => .ok (!c.excluded.any f.isA && c.expected.any f.isA)

end Config

end KeyedBreaker
