import OpLint.Span
import OpLint.Text.Template
import OpLint.Vocabulary

/-!
# Diagnostics and their descriptors

A descriptor is what a rule publishes about one kind of finding: the rule's id, a
message template and the defaults that options may override. Several descriptors
may share an id. A diagnostic is one finding, made from a descriptor, a place and
the arguments of the message.
-/

namespace OpLint

inductive Severity
  | hidden
  | info
  | warning
  | error
  deriving DecidableEq, Repr, Inhabited

namespace Severity

/-- Severities ascend from `hidden` to `error`. -/
def rank : Severity → Nat
  | hidden => 0
  | info => 1
  | warning => 2
  | error => 3

instance : Vocabulary Severity where
  all := [hidden, info, warning, error]
  word
    | hidden => "hidden"
    | info => "info"
    | warning => "warning"
    | error => "error"

end Severity

/-- The quality area that a rule belongs to. -/
inductive Category
  | design
  | maintainability
  | naming
  | performance
  | reliability
  | security
  | usage
  deriving DecidableEq, Repr, Inhabited

instance : Vocabulary Category where
  all := [.design, .maintainability, .naming, .performance, .reliability, .security, .usage]
  word
    | .design => "Design"
    | .maintainability => "Maintainability"
    | .naming => "Naming"
    | .performance => "Performance"
    | .reliability => "Reliability"
    | .security => "Security"
    | .usage => "Usage"

structure Descriptor where
  id : String
  title : String
  /-- The message, with a placeholder for each argument. -/
  template : String
  category : Category
  severity : Severity
  enabled : Bool
  helpLink : Option String
  tags : List String
  deriving DecidableEq, Repr, Inhabited

/-- A further place that helps to understand a diagnostic. -/
structure Related where
  file : String
  start : UInt32
  length : UInt32
  message : String
  deriving DecidableEq, Repr, Inhabited

structure Diagnostic where
  file : String
  start : UInt32
  length : UInt32
  message : String
  severity : Severity
  /-- Id of the rule that reported it. -/
  code : String
  category : Category
  related : List Related
  deriving DecidableEq, Repr, Inhabited

/-- The diagnostic of `d` at `span` of `file`, its message filled with `args`. -/
def Descriptor.create (d : Descriptor) (file : String) (span : Span) (args : List String) :
    Diagnostic where
  file := file
  start := span.start
  length := span.length
  message := Text.Template.fill d.template args
  severity := d.severity
  code := d.id
  category := d.category
  related := []

namespace Diagnostic

def withRelated (d : Diagnostic) (file : String) (span : Span) (message : String) : Diagnostic :=
  { d with related := d.related ++ [⟨file, span.start, span.length, message⟩] }

def span (d : Diagnostic) : Span :=
  .ofLength d.start d.length

end Diagnostic

end OpLint
