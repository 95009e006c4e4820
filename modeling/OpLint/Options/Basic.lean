import OpLint.Rule.Basic

/-!
# Options of an analysis

Options choose how an analysis runs and override what rules declare, rule id by
rule id.
-/

namespace OpLint

/-- Whether bodies may be analyzed at the same time. -/
inductive ExecutionMode
  /-- They may, if every rule allows it. -/
  | concurrent
  | sequential
  deriving DecidableEq, Repr, Inhabited

instance : Vocabulary ExecutionMode where
  all := [.concurrent, .sequential]
  word
    | .concurrent => "concurrent"
    | .sequential => "sequential"

/-- What is overridden for one rule id. -/
structure RuleSetting where
  enabled : Option Bool
  severity : Option Severity
  deriving DecidableEq, Repr, Inhabited

structure Options where
  executionMode : ExecutionMode
  /-- Replaces the policy that each rule declares. -/
  generatedCode : Option GeneratedCodePolicy
  /-- At most one setting for each rule id. -/
  rules : List (String × RuleSetting)
  deriving DecidableEq, Repr

namespace Options

def default : Options := ⟨.concurrent, none, []⟩

instance : Inhabited Options := ⟨default⟩

def setting? (o : Options) (id : String) : Option RuleSetting :=
  o.rules.lookup id

/-- Whether a descriptor is enabled: by its id's setting, else by its own default. -/
def isEnabled (o : Options) (d : Descriptor) : Bool :=
  ((o.setting? d.id).bind RuleSetting.enabled).getD d.enabled

def severityOverride? (o : Options) (id : String) : Option Severity :=
  (o.setting? id).bind RuleSetting.severity

/-- Whether some rule has a descriptor of that id. -/
def isDeclared (rules : List Rule) (id : String) : Bool :=
  rules.any fun rule => rule.descriptors.any (·.id = id)

/-- The smallest id with a setting that no rule declares. -/
def unknownRuleId? (o : Options) (rules : List Rule) : Option String :=
  ((o.rules.map Prod.fst).mergeSort (fun a b => decide (a ≤ b))).find? (!isDeclared rules ·)

/-- The message about an unknown rule id. -/
def unknownRuleMessage (id : String) : String :=
  s!"unknown rule id '{id}' in analyzer options"

end Options

end OpLint
