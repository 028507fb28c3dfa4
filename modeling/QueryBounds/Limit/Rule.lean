import QueryBounds.Limit.Options

/-!
# Rules and extensions

A limit is put to work as a validation rule, as an extension of a server, or as a factory of such
extensions. Each names a few settings as parameters of its own. The parameters go after all other
options, with a default where they are not given, so they win over another spelling of theirs.
-/
namespace QueryBounds

/-- Options with named parameters moved behind the others, at their defaults unless given. -/
def Settings.withParameters (args : Settings) (parameters : Settings) : Settings :=
  args.filter (fun e => !parameters.any (·.1 == e.1))
    ++ parameters.map fun (key, otherwise) => (key, args.value key otherwise)

/-- The parameters of the rule and the extension of a limit, with their defaults. -/
def LimitKind.parameters : LimitKind → Settings
  | .aliases => [("n", .null), ("allow_list", .list [])]
  | .depth => [
    ("n", .null), ("flatten_fragments", .bool false), ("ignore_introspection", .bool false)]

/-- The one parameter of a factory of extensions. -/
def factoryParameters : Settings := [("n", .null)]

namespace AliasLimit

/-- The limit of the rule that arguments make. -/
def ofRule (args : Settings) : Except Failure AliasLimit :=
  ofOptions (args.withParameters LimitKind.aliases.parameters)

/-- The limit of the extension that arguments make. -/
def ofExtension (args : Settings) : Except Failure AliasLimit :=
  ofRule (args.withParameters LimitKind.aliases.parameters)

/-- The limit of an extension from the factory that arguments make; what the extension itself is
given plays no part. -/
def ofFactory (args _given : Settings) : Except Failure AliasLimit :=
  ofExtension (args.withParameters factoryParameters)

end AliasLimit

namespace DepthLimit

/-- The limit of the rule that arguments make. -/
def ofRule (args : Settings) : Except Failure DepthLimit :=
  ofOptions (args.withParameters LimitKind.depth.parameters)

/-- The limit of the extension that arguments make. -/
def ofExtension (args : Settings) : Except Failure DepthLimit :=
  ofRule (args.withParameters LimitKind.depth.parameters)

/-- The limit of an extension from the factory that arguments make; what the extension itself is
given plays no part. -/
def ofFactory (args _given : Settings) : Except Failure DepthLimit :=
  ofExtension (args.withParameters factoryParameters)

end DepthLimit
end QueryBounds
