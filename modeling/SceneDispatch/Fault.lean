import SceneDispatch.Diagnostic
import SceneDispatch.Markup.Element
/-!
The causes for which a configuration or a scene is refused. Code, message and place of each cause
are decided here and nowhere else.
-/
namespace SceneDispatch

/-- What a look-up of a feature can find wrong. -/
inductive LookupFault where
  | unknown (name : String)
  | notSwitch (name : String)
  deriving DecidableEq, Repr

inductive Fault where
  | markupMalformed
  | configurationMalformed
  | attributeMissing (tag : Tag) (name : String)
  | featureDuplicate (name : String) (place : Option Span)
  | lookup (cause : LookupFault)
  | lookupAt (tag : Tag) (cause : LookupFault)
  | resourceDuplicate (tag : Tag) (name : String)
  | resourceUnknown (tag : Tag) (name : String)
  | textMissing (tag : Tag)
  | contentInvalid (tag : Tag) (count : Nat)
  | tagUnknown (tag : Tag)
  | caseOutsideSwitch (tag : Tag)
  | optionOutsideOptions (tag : Tag)
  | switchChildInvalid (tag : Tag)
  | defaultNotLast (tag : Tag)
  | caseValueEmpty (tag : Tag)
  | messageStyleUnknown (tag : Tag) (style : String)
  | optionsEmpty (tag : Tag)
  | optionsChildInvalid (tag : Tag)
  | armNotCase (arm : Nat) (kind : String)
  | messageDetached
  | messageStray (kind : String)
  deriving DecidableEq

namespace LookupFault

def code : LookupFault → String
  | unknown _ => "FEATURE_UNKNOWN"
  | notSwitch _ => "SWITCH_FEATURE_EXPECTED"

/-- The complaint without its full stop. -/
def summary : LookupFault → String
  | unknown name => s!"Unknown feature \"{name}\""
  | notSwitch name => s!"Feature \"{name}\" is not a switch feature"

end LookupFault

namespace Fault

/-- A placeholder: how a parser describes malformed markup is left open here, and nothing is said
about the description. -/
def markupText : String := "<xml>"

def code : Fault → String
  | markupMalformed => "XML_PARSE_ERROR"
  | configurationMalformed => "CONFIG_MALFORMED"
  | attributeMissing .. => "XML_MISSING_ATTR"
  | featureDuplicate .. => "FEATURE_DUPLICATE"
  | lookup cause => cause.code
  | lookupAt _ cause => cause.code
  | resourceDuplicate .. => "RESOURCE_DUPLICATE"
  | resourceUnknown .. => "RESOURCE_UNKNOWN"
  | textMissing _ => "XML_MISSING_ATTR"
  | contentInvalid .. => "SCENE_CONTENT_INVALID"
  | tagUnknown _ => "TAG_UNKNOWN"
  | caseOutsideSwitch _ => "CASE_OUTSIDE_SWITCH"
  | optionOutsideOptions _ => "OPTION_OUTSIDE_OPTIONS"
  | switchChildInvalid _ => "SWITCH_CHILD_INVALID"
  | defaultNotLast _ => "SWITCH_DEFAULT_NOT_LAST"
  | caseValueEmpty _ => "CASE_VALUE_EMPTY"
  | messageStyleUnknown .. => "MESSAGE_STYLE_UNKNOWN"
  | optionsEmpty _ => "OPTIONS_EMPTY"
  | optionsChildInvalid _ => "OPTIONS_CHILD_INVALID"
  | armNotCase .. => "INTERNAL_CONSISTENCY"
  | messageDetached => "INTERNAL_CONSISTENCY"
  | messageStray _ => "INTERNAL_CONSISTENCY"

/-- A complaint together with the opening text of the element it is about. -/
def about (tag : Tag) (complaint : String) : String :=
  complaint ++ " in the element \"" ++ tag.opening ++ "\""

def message : Fault → String
  | markupMalformed => markupText
  | configurationMalformed => s!"Configuration has no usable root element ({markupText})."
  | attributeMissing tag name =>
    about tag s!"Missing required attribute \"{name}\" on <{tag.name}>" ++ "."
  | featureDuplicate name _ => s!"Feature \"{name}\" is defined more than once."
  | lookup cause => cause.summary ++ "."
  | lookupAt tag cause => about tag cause.summary
  | resourceDuplicate tag name => about tag s!"Resource \"{name}\" is defined more than once"
  | resourceUnknown tag name => about tag s!"Unknown resource \"{name}\""
  | textMissing tag => about tag s!"<{tag.name}> requires a \"text\" or \"rsrc\" attribute"
  | contentInvalid tag count =>
    about tag s!"Scene root must hold exactly one content element after <resources>, found {count}"
  | tagUnknown tag => about tag s!"Unknown tag type \"{tag.name}\""
  | caseOutsideSwitch tag => about tag s!"<{tag.name}> must be a direct child of <switch>"
  | optionOutsideOptions tag => about tag "<option> must be a direct child of <options>"
  | switchChildInvalid tag => about tag s!"Unsupported child <{tag.name}> under <switch>"
  | defaultNotLast tag => about tag "<default> must be the last child of <switch>"
  | caseValueEmpty tag => about tag "<case> requires at least one value in \"val\""
  | messageStyleUnknown tag style => about tag s!"Unknown message style \"{style}\""
  | optionsEmpty tag => about tag "<options> requires at least one <option>"
  | optionsChildInvalid tag => about tag s!"Unsupported child <{tag.name}> under <options>"
  | armNotCase arm kind => s!"switch child {arm} is a {kind}, not a case"
  | messageDetached => "message has no parent"
  | messageStray kind => s!"message is not a child of the enclosing <{kind}>"

def span : Fault → Option Span
  | markupMalformed => none
  | configurationMalformed => none
  | attributeMissing tag _ => some tag.span
  | featureDuplicate _ place => place
  | lookup _ => none
  | lookupAt tag _ => some tag.span
  | resourceDuplicate tag _ => some tag.span
  | resourceUnknown tag _ => some tag.span
  | textMissing tag => some tag.span
  | contentInvalid tag _ => some tag.span
  | tagUnknown tag => some tag.span
  | caseOutsideSwitch tag => some tag.span
  | optionOutsideOptions tag => some tag.span
  | switchChildInvalid tag => some tag.span
  | defaultNotLast tag => some tag.span
  | caseValueEmpty tag => some tag.span
  | messageStyleUnknown tag _ => some tag.span
  | optionsEmpty tag => some tag.span
  | optionsChildInvalid tag => some tag.span
  | armNotCase .. => none
  | messageDetached => none
  | messageStray _ => none

def diagnostic (f : Fault) : Diagnostic := ⟨f.code, f.message, f.span⟩

end Fault

namespace Tag

/-- An attribute that the element must have. -/
def require (t : Tag) (name : String) : Except Fault String :=
  match t.attribute? name with
  | some value => .ok value
  | none => .error (.attributeMissing t name)

end Tag

end SceneDispatch
