import KeyedBreaker.Binary64.Decimal

namespace KeyedBreaker.Retry

structure Policy where
  attempts : Int
  minSeconds : Binary64
  maxSeconds : Binary64
  jitterSeconds : Binary64 := Binary64.ofInt 1

inductive PolicyError where
  | attempts
  | minSeconds
  | maxSeconds
  | bounds
  | jitterSeconds
  deriving DecidableEq

namespace PolicyError

def message : PolicyError → String
  | .attempts => "attempts must be >= 1"
  | .minSeconds => "min_seconds must be >= 0"
  | .maxSeconds => "max_seconds must be >= 0"
  | .bounds => "max_seconds must be >= min_seconds"
  | .jitterSeconds => "jitter_seconds must be >= 0"

end PolicyError

namespace Policy

def conflict : Policy where
  attempts := 5
  minSeconds := Binary64.ofRatio 1 100
  maxSeconds := Binary64.ofRatio 1 5
  jitterSeconds := Binary64.ofRatio 1 20

def check (p : Policy) : Except PolicyError Unit :=
  if p.attempts < 1 then .error .attempts
  else if p.minSeconds < Binary64.zero then .error .minSeconds
  else if p.maxSeconds < Binary64.zero then .error .maxSeconds
  else if p.maxSeconds < p.minSeconds then .error .bounds
  else if p.jitterSeconds < Binary64.zero then .error .jitterSeconds
  else .ok ()

/-- The part of the jitter that a fraction drawn from zero to one selects. -/
def jitter (p : Policy) (fraction : Binary64) : Binary64 :=
  Binary64.zero + (p.jitterSeconds - Binary64.zero) * fraction

/-- The wait before it is bounded. A power of two that is no finite number counts as the bound. -/
def growth (p : Policy) (fraction : Binary64) (attempt : Nat) : Binary64 :=
  if attempt ≤ 1024 then
    p.minSeconds * Binary64.ofInt (2 ^ (attempt - 1)) + p.jitter fraction
  else p.maxSeconds

def delay (p : Policy) (fraction : Binary64) (attempt : Nat) : Binary64 :=
  Binary64.zero.max ((p.growth fraction attempt).min p.maxSeconds)

end Policy

end KeyedBreaker.Retry
