import ZeroWidth.Program.Operation

/-!
# Failures of a check

A check that cannot be carried out ends in a failure. What is wrong with the types of a program is
not a failure but part of the report.
-/

namespace ZeroWidth

inductive CheckFailure where
  | undefinedLabel (name : Label) (span : Span)
  | duplicatedLabel (name : Label) (span : Span)
  | depthOutOfRange (depth : Int64) (span : Span)
  /-- The graph had not settled after this many passes. -/
  | iterationLimit (passes : Nat)
deriving DecidableEq

def CheckFailure.message : CheckFailure → String
  | undefinedLabel name span   =>
    "label `" ++ name ++ "` is used at " ++ span.text ++ " but never defined"
  | duplicatedLabel name span  => "label `" ++ name ++ "` is defined again at " ++ span.text
  | depthOutOfRange depth span =>
    "stack depth " ++ Decimal.text depth ++ " at " ++ span.text ++ " is out of range"
  | iterationLimit passes      =>
    "type graph did not settle within " ++ toString passes ++ " passes"

end ZeroWidth
