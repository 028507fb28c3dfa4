import QueryBounds.Failure.Cause
import QueryBounds.Limit.Basic

/-!
# Limits from settings

A limit is built from values of any kind. Names are looked at first, in the order in which they
were given, then the bound, the hooks for acceptance, the hooks for rejection, and the allowed
aliases; the first thing that is wrong is the one to blame.
-/
namespace QueryBounds

/-! ## Checks of single settings -/

/-- A bound: nothing, or a whole number that is not negative. Truth values are no numbers. -/
def boundOf : Value → Except Failure (Option Nat)
  | .null => .ok none
  | .int n => if n < 0 then .error (.configuration (.negative n)) else .ok (some n.toNat)
  | v => .error (.configuration (.notWhole v))

/-- The single hooks of a value: none, one, or the items of a collection. What is neither is itself
the one entry. -/
def hookEntries : Value → List Value
  | .null => []
  | v => v.items?.getD [v]

def hooksOf (setting : SettingName) (v : Value) : Except Failure (List Hook) :=
  (hookEntries v).mapM fun
    | .hook h => .ok h
    | w => .error (.configuration (.notCallable setting w))

/-- The items of a collection, all of which can be members of a set. -/
def membersOf (v : Value) : Except Failure (List Value) :=
  match v.items? with
  | none => .error (.misfit (.notIterable v))
  | some items =>
    match items.find? (!·.isHashable) with
    | some w => .error (.misfit (.notHashable w))
    | none => .ok items

/-- Where a number stands in a set of so many members: numbers go by the remainder of their whole
part, by eight in a small set and by thirty-two in a larger one. -/
def standing (members : Nat) (v : Value) : Int :=
  match v.amount? with
  | some (amount, places) =>
    amount.tdiv (Decimal.scale places) % (if members < 5 then 8 else 32)
  | none => 0

/-- The member to blame, the first in the set of those that are no texts, if there are any. -/
def blamed? (members : List Value) : Option Value :=
  (members.filter fun v => v.text?.isNone).minOn? (standing members.length)

/-- The set of the names that the members are; the first that is no text is to blame. -/
def namesOf (members : List Value) : Except Failure (List String) :=
  match blamed? members with
  | some w => .error (.configuration (.allowedNotText w))
  | none => .ok (distinctNames (members.filterMap Value.text?))

/-- The allowed aliases: a collection of texts that is not a text itself. A value that does not
hold stands for no alias at all. -/
def allowedOf (v : Value) : Except Failure (List String) :=
  match v with
  | .text s => .error (.configuration (.allowListIsText s))
  | v => (if v.holds then membersOf v else .ok []) >>= namesOf

/-! ## Whole limits -/

def Limit.ofAssignment (a : Assignment) : Except Failure Limit := do
  let n ← boundOf (a.value .n)
  let onAccept ← hooksOf .onAccept (a.value .onAccept)
  let onReject ← hooksOf .onReject (a.value .onReject)
  return {
    n, onAccept, onReject
    exposeLimits := a.value .exposeLimits
    errorMessage := a.value .errorMessage
    propagate := a.value .propagateOnRejection }

def AliasLimit.ofAssignment (a : Assignment) : Except Failure AliasLimit := do
  let limit ← Limit.ofAssignment a
  return { limit with allowed := ← allowedOf (a.value .allowList) }

def DepthLimit.ofAssignment (a : Assignment) : Except Failure DepthLimit := do
  let limit ← Limit.ofAssignment a
  return { limit with
    flattenFragments := a.value .flattenFragments
    ignoreIntrospection := a.value .ignoreIntrospection }

/-- The assignment that options make, in either spelling of their names; the first name that the
limit does not have is to blame. -/
def Assignment.ofOptions (kind : LimitKind) (options : Settings) : Except Failure Assignment :=
  options.mapM fun (key, v) =>
    match kind.setting? key with
    | some s => .ok (s, v)
    | none => .error (.configuration (.unknownOption key kind))

/-- The assignment that arguments make, which are named by keys alone. -/
def Assignment.ofArguments (kind : LimitKind) (args : Settings) : Except Failure Assignment :=
  args.mapM fun (key, v) =>
    match kind.settingOfKey? key with
    | some s => .ok (s, v)
    | none => .error (.misfit (.unknownArgument key))

namespace AliasLimit

def ofOptions (options : Settings) : Except Failure AliasLimit :=
  Assignment.ofOptions .aliases options >>= ofAssignment

def ofArguments (args : Settings) : Except Failure AliasLimit :=
  Assignment.ofArguments .aliases args >>= ofAssignment

/-- The limit without any setting: no bound, and all settings at their defaults. -/
def unlimited : AliasLimit where
  n := none
  exposeLimits := .bool true
  errorMessage := .text SettingName.defaultMessage
  propagate := .bool true
  onAccept := []
  onReject := []
  allowed := []

end AliasLimit

namespace DepthLimit

def ofOptions (options : Settings) : Except Failure DepthLimit :=
  Assignment.ofOptions .depth options >>= ofAssignment

def ofArguments (args : Settings) : Except Failure DepthLimit :=
  Assignment.ofArguments .depth args >>= ofAssignment

/-- The limit without any setting: no bound, and all settings at their defaults. -/
def unlimited : DepthLimit where
  n := none
  exposeLimits := .bool true
  errorMessage := .text SettingName.defaultMessage
  propagate := .bool true
  onAccept := []
  onReject := []
  flattenFragments := .bool false
  ignoreIntrospection := .bool false

end DepthLimit

/-! ## The settings of a limit, to build it again from -/

def Limit.settings (l : Limit) : Settings := [
  (SettingName.n.key, (l.n.map fun n : Nat => Value.int n).getD .null),
  (SettingName.exposeLimits.key, l.exposeLimits),
  (SettingName.errorMessage.key, l.errorMessage),
  (SettingName.propagateOnRejection.key, l.propagate),
  (SettingName.onAccept.key, .list (l.onAccept.map .hook)),
  (SettingName.onReject.key, .list (l.onReject.map .hook))]

def AliasLimit.settings (l : AliasLimit) : Settings :=
  l.toLimit.settings ++ [(SettingName.allowList.key, .list (l.allowed.map .text))]

def DepthLimit.settings (l : DepthLimit) : Settings :=
  l.toLimit.settings ++ [
    (SettingName.flattenFragments.key, l.flattenFragments),
    (SettingName.ignoreIntrospection.key, l.ignoreIntrospection)]

end QueryBounds
