import SceneDispatch.Feature.Call
import SceneDispatch.Script.Draft
/-!
Scripts: the generated text with what is known about it. The dispatch routine runs, one after
another, the groups whose context holds the current status.
-/
namespace SceneDispatch

/-- A compiled scene: its text, the packages it imports, the contexts of its groups, and the
number of its suspend points. -/
structure Script where
  source : String
  dependencies : List String
  statusGroups : List StatusContext
  statusCount : Nat
  deriving DecidableEq

namespace Group

def guard (g : Group) : String :=
  " || ".intercalate (g.context.toList.map fun (status : Int) => s!"status == {status}")

def text (g : Group) : String :=
  s!"        if ({g.guard})\n" ++ "        \x7b\n" ++
    Layout.render Layout.baseDepth (g.statements.map Statement.item) ++ "        \x7d\n"

end Group

namespace Draft

/-- The body of the dispatch routine, in which calls are not expanded yet. -/
def body (d : Draft) : String := String.join (d.groups.map Group.text)

end Draft

namespace Script

def generatorName : String := "dlgc"

/-- The script around the body of its dispatch routine. -/
def assemble (date manager body : String) (dependencies : List String) : String :=
  s!"/* This script was automatically generated by {generatorName} on {date} */\n" ++
  String.join (dependencies.map fun d => s!"importPackage({d});\n") ++
  "var status = 0;\n" ++
  "function start() \x7b\n" ++
  s!"    status = {Status.start};\n" ++
  "    action(1, 0, 0);\n" ++
  "\x7d\n" ++
  "function action(mode, type, selection) \x7b\n" ++
  "    if (mode == -1) \x7b\n" ++
  s!"        {manager}.dispose();\n" ++
  "    \x7d else \x7b\n" ++
  body ++
  "    \x7d\n" ++
  "\x7d\n"

/-- The script of a draft. Calls in the body are expanded first, so that what they depend on is
imported too. -/
def ofDraft (r : Registry) (d : Draft) (date : String) (statusCount : Nat) : Script :=
  let expansion := Expansion.of r r.manager d.body
  let dependencies := (d.dependencies ∪ .ofList expansion.dependencies).toList
  ⟨assemble date r.manager expansion.text dependencies, dependencies,
    d.groups.map Group.context, statusCount⟩

end Script

end SceneDispatch
