import SpendCheck.Machine.Basic
import SpendCheck.Script.Operation

namespace SpendCheck

/-- Opens a conditional. Where nothing is executed its first branch is not
    executed either, and no element is used up. -/
def Machine.openConditional (expected : Bool) (m : Machine) : Outcome Machine :=
  if m.executes then
    match m.stack with
    | [] => .failed .unbalancedConditional m
    | element :: rest =>
      .done { m with
        stack := rest
        conditions := (Number.truthy element == expected) :: m.conditions }
  else .done { m with conditions := false :: m.conditions }

/-- The effect of the opcodes around conditionals. Every `otherwise` turns the
    innermost conditional round, the second one of a conditional too. -/
def Branching.apply : Branching → Machine → Outcome Machine
  | .ifTrue, m => m.openConditional true
  | .ifFalse, m => m.openConditional false
  | .otherwise, m =>
    match m.conditions with
    | [] => .failed .unbalancedConditional m
    | condition :: outer => .done { m with conditions := (!condition) :: outer }
  | .endIf, m =>
    match m.conditions with
    | [] => .failed .unbalancedConditional m
    | _ :: outer => .done { m with conditions := outer }

end SpendCheck
