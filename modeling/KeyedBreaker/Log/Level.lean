import KeyedBreaker.Text.Blank

namespace KeyedBreaker.Log

inductive Level where
  | debug
  | info
  | warning
  | error
  | critical
  deriving DecidableEq

namespace Level

def all : List Level := [.debug, .info, .warning, .error, .critical]

def name : Level → String
  | .debug => "DEBUG"
  | .info => "INFO"
  | .warning => "WARNING"
  | .error => "ERROR"
  | .critical => "CRITICAL"

def number : Level → Int
  | .debug => 10
  | .info => 20
  | .warning => 30
  | .error => 40
  | .critical => 50

def ofName? (name : String) : Option Level := all.find? (·.name = name)

def normalized (text : String) : String :=
  String.ofList (Text.capitals (Text.strip Text.isBlank text.toList))

def numbers : List (String × Int) :=
  [("DEBUG", 10), ("INFO", 20), ("WARNING", 30), ("ERROR", 40), ("CRITICAL", 50)]

def number? (text : String) : Option Int := numbers.lookup (normalized text)

def unknownMessage : String := "log_level must be one of: CRITICAL, DEBUG, ERROR, INFO, WARNING"

end Level

inductive Method where
  | debug
  | info
  | warning
  | error
  | exception
  | critical
  deriving DecidableEq

namespace Method

def all : List Method := [.debug, .info, .warning, .error, .exception, .critical]

def name : Method → String
  | .debug => "debug"
  | .info => "info"
  | .warning => "warning"
  | .error => "error"
  | .exception => "exception"
  | .critical => "critical"

def ofName? (name : String) : Option Method := all.find? (·.name = name)

def level : Method → Level
  | .debug => .debug
  | .info => .info
  | .warning => .warning
  | .error | .exception => .error
  | .critical => .critical

end Method

end KeyedBreaker.Log
