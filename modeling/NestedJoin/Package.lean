set_option autoImplicit false

/-!
# The package

The version of the package and the names it makes public, in alphabetical order of their
code points.
-/

namespace NestedJoin.Package

/-- The parts of the version number. -/
def versionParts : List Nat := [0, 1, 0]

/-- The version number. -/
def version : String := ".".intercalate (versionParts.map toString)

/-- The public names. -/
def publicNames : List String :=
  ["ColumnNameClashError", "CompiledQuery", "DuplicateAliasError", "InspectorSchema", "JoinEdge",
   "JoinGraph", "JoinKind", "JoinType", "MetadataSchema", "NoConnectionAvailableError",
   "NoRootTableError", "ParameterCollisionWarning", "PrimaryKeyFieldNotFoundError",
   "QueryCompiler", "Registry", "RelationManager", "RelationsError", "ResultMaterializer",
   "SchemaSource", "TableSpec", "UnknownAliasError", "UnknownConditionTypeError",
   "UnknownEntityError", "__version__", "__version_tuple__", "add_conditions", "flat_name",
   "frozendict", "get_schema", "get_table_name", "get_table_names", "init_registry",
   "resolve_col"]

end NestedJoin.Package
