import CurryLisp.Machine
import CurryLisp.Struct.Fields

/-!
# Registered structs

A struct template is registered in the innermost environment together with its type, both under the
name of the struct. An instance is a copy of a registered template.
-/

namespace CurryLisp.Struct

/-- Makes a struct an object and registers it as a template. -/
def register (struct : Struct) : Eval Value := do
  Eval.note (.structRegistered struct.name struct.tag.name)
  let template ← Eval.make (Store.newStruct struct)
  Eval.updateActive fun env => (env.putType struct.tag).putStruct struct.name template
  return .struct template

/-- The template that is registered under a name. -/
def template (name : String) : Eval Address := do
  match (← get).lookupStruct? name with
  | some a => return a
  | none => throw (.unboundType (typeName name))

/-- Declares a struct and registers its template. -/
def defineTemplate (name : String) (specs : List FieldSpec) : Eval Value := do
  let struct ← Eval.ask fun s => define s name specs
  register struct

/-- Declares a struct below a registered one and registers its template. -/
def deriveTemplate (name parent : String) (specs : List FieldSpec) : Eval Value := do
  let parent ← template parent
  let struct ← Eval.onStore fun s => derive s name (s.struct parent) specs
  register struct

/-- A new instance of a registered struct, with values for some of its fields. -/
def instantiate (name : String) (inits : List (String × Value)) : Eval Value := do
  let template ← template name
  Eval.onStore fun s => do
    let (a, s) := s.copyStruct (s.struct template)
    let s ← s.setFields a inits
    return (.struct a, s)

end CurryLisp.Struct
