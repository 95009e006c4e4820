import OpLint.Diagnostic.Basic
import OpLint.Json.Value

/-!
# Diagnostics and descriptors as JSON

The spelling of the keys is part of the format: descriptors use underscores,
diagnostics do not.
-/

namespace OpLint

def Descriptor.toJson (d : Descriptor) : Json.Value :=
  .object <|
    [("id", .string d.id), ("title", .string d.title), ("message_format", .string d.template),
      ("category", .string (Vocabulary.word d.category)),
      ("default_severity", .string (Vocabulary.word d.severity)),
      ("is_enabled_by_default", .bool d.enabled)] ++
    (d.helpLink.toList.map fun link => ("help_link", .string link)) ++
    [("custom_tags", .array (d.tags.map .string))]

def Related.toJson (r : Related) : Json.Value :=
  .object [("file", .string r.file), ("start", .number r.start.toNat),
    ("length", .number r.length.toNat), ("messageText", .string r.message)]

def Diagnostic.toJson (d : Diagnostic) : Json.Value :=
  .object <|
    [("file", .string d.file), ("start", .number d.start.toNat),
      ("length", .number d.length.toNat), ("messageText", .string d.message),
      ("severity", .string (Vocabulary.word d.severity)), ("code", .string d.code),
      ("category", .string (Vocabulary.word d.category))] ++
    if d.related.isEmpty then []
    else [("relatedInformation", .array (d.related.map Related.toJson))]

end OpLint
