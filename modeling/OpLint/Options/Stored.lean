import OpLint.Json.Record
import OpLint.Json.Value
import OpLint.Options.Basic

/-!
# Options as they are stored

Options and rule settings refuse fields that they do not know, so that a misspelt
one does not go unnoticed. When a rule id occurs twice the last setting counts.
-/

namespace OpLint

open Json (Reader Record)

/-- The member of a value that may be missing. -/
def Vocabulary.optionalMember {α : Type} [Vocabulary α] (name : String) (a : Option α) :
    List (String × Json.Value) :=
  a.toList.map fun a => (name, .string (word a))

namespace RuleSetting

def toJson (s : RuleSetting) : Json.Value :=
  .object <| (s.enabled.toList.map fun enabled => ("enabled", .bool enabled)) ++
    Vocabulary.optionalMember "severity" s.severity

def record : Record RuleSetting :=
  { Record.ofFields "RuleSetting"
      (.withDefault "enabled" (Reader.optional Reader.flag) none)
      (.withDefault "severity" (Reader.optional Reader.variant) none)
      RuleSetting.mk with strict := true }

end RuleSetting

namespace Options

def toJson (o : Options) : Json.Value :=
  .object <| [("executionMode", .string (Vocabulary.word o.executionMode))] ++
    Vocabulary.optionalMember "generatedCode" o.generatedCode ++
    [("rules", .object (o.rules.map fun (id, setting) => (id, setting.toJson)))]

/-- Keeps the last entry of each id. -/
def keepLast (entries : List (String × RuleSetting)) : List (String × RuleSetting) :=
  entries.foldl (fun kept entry => kept.filter (·.1 ≠ entry.1) ++ [entry]) []

def record : Record Options :=
  { Record.ofFields₃ "AnalyzerOptions"
      (.withDefault "executionMode" Reader.variant .concurrent)
      (.withDefault "generatedCode" (Reader.optional Reader.variant) none)
      (.withDefault "rules" (Reader.map keepLast (Reader.table RuleSetting.record.read)) [])
      Options.mk with strict := true }

/-- The options that a text stores. -/
def ofText (text : String) : Except Json.Error Options :=
  Reader.run record.read text

end Options

end OpLint
