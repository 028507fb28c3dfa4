import QueryBounds.Setting.Value

/-!
# The settings of a limit

Two limits exist, each with settings of its own beside those they share. A setting has one name
with underscores, and most have a second spelling in camel case.
-/
namespace QueryBounds

/-- The two limits. -/
inductive LimitKind where
  | aliases
  | depth
  deriving DecidableEq, Repr

/-- The name under which a limit's settings are reported. -/
def LimitKind.title : LimitKind → String
  | .aliases => "MaxAliasesConfig"
  | .depth => "MaxDepthConfig"

inductive SettingName where
  | n
  | exposeLimits
  | errorMessage
  | propagateOnRejection
  | onAccept
  | onReject
  | allowList
  | flattenFragments
  | ignoreIntrospection
  deriving DecidableEq, Repr

namespace SettingName

def key : SettingName → String
  | n => "n"
  | exposeLimits => "expose_limits"
  | errorMessage => "error_message"
  | propagateOnRejection => "propagate_on_rejection"
  | onAccept => "on_accept"
  | onReject => "on_reject"
  | allowList => "allow_list"
  | flattenFragments => "flatten_fragments"
  | ignoreIntrospection => "ignore_introspection"

/-- The spelling in camel case, where it differs from the key. -/
def camelKey? : SettingName → Option String
  | n => none
  | exposeLimits => some "exposeLimits"
  | errorMessage => some "errorMessage"
  | propagateOnRejection => some "propagateOnRejection"
  | onAccept => some "onAccept"
  | onReject => some "onReject"
  | allowList => some "allowList"
  | flattenFragments => some "flattenFragments"
  | ignoreIntrospection => some "ignoreIntrospection"

/-- Whether a text spells a setting in either way. -/
def isSpelled (s : SettingName) (text : String) : Bool :=
  s.key == text || s.camelKey? == some text

/-- The message that hides a limit unless another one is set. -/
def defaultMessage : String := "Query validation error."

/-- The value of a setting that is not given. -/
def default : SettingName → Value
  | n => .null
  | exposeLimits => .bool true
  | errorMessage => .text defaultMessage
  | propagateOnRejection => .bool true
  | onAccept => .list []
  | onReject => .list []
  | allowList => .list []
  | flattenFragments => .bool false
  | ignoreIntrospection => .bool false

/-- The settings that both limits have. -/
def shared : List SettingName :=
  [n, exposeLimits, errorMessage, propagateOnRejection, onAccept, onReject]

end SettingName

namespace LimitKind

/-- The settings of a limit. -/
def settings : LimitKind → List SettingName
  | .aliases => SettingName.shared ++ [.allowList]
  | .depth => SettingName.shared ++ [.flattenFragments, .ignoreIntrospection]

/-- The setting of a limit that a text spells, in either spelling. -/
def setting? (kind : LimitKind) (text : String) : Option SettingName :=
  kind.settings.find? (·.isSpelled text)

/-- The setting of a limit that has a key. -/
def settingOfKey? (kind : LimitKind) (key : String) : Option SettingName :=
  kind.settings.find? (·.key == key)

/-- The keys of a limit's settings in ascending order. -/
def sortedKeys (kind : LimitKind) : List String :=
  (kind.settings.map (·.key)).mergeSort fun a b => !decide (b < a)

end LimitKind

/-- The settings given to a limit, each with the setting it names. -/
abbrev Assignment := List (SettingName × Value)

namespace Assignment

/-- The value in force for a setting: the last one given, or its default. -/
def value (a : Assignment) (s : SettingName) : Value :=
  ((a.filter (·.1 == s)).getLast?.map (·.2)).getD s.default

end Assignment
end QueryBounds
