import CqlCanon.Text.Upper

/-!
# Reserved words

Words that cannot stand as unquoted names, in any letter case.
-/

namespace CqlCanon

/-- The reserved words, in upper case. -/
def reservedWords : List Text :=
  ["ADD", "ALLOW", "ALTER", "AND", "APPLY", "ASC", "AUTHORIZE", "BATCH", "BEGIN", "BY",
   "COLUMNFAMILY", "CREATE", "DELETE", "DESC", "DESCRIBE", "DROP", "ENTRIES", "EXECUTE", "FROM",
   "FULL", "GRANT", "IF", "IN", "INDEX", "INFINITY", "INSERT", "INTO", "KEYSPACE", "LIMIT",
   "MODIFY", "NAN", "NORECURSIVE", "NOT", "NULL", "OF", "ON", "OR", "ORDER", "PRIMARY", "RENAME",
   "REVOKE", "SCHEMA", "SELECT", "SET", "TABLE", "TO", "TOKEN", "TRUNCATE", "UNLOGGED", "UPDATE",
   "USE", "USING", "WHERE", "WITH"].map String.toList

/-- Whether an ASCII name is a reserved word. -/
def isReserved (name : Text) : Bool := reservedWords.contains (Text.upper name)

/-- Whether an ASCII name may not be the function of a call: `token` is reserved, but callable. -/
def isReservedFunction (name : Text) : Bool :=
  isReserved name && Text.upper name != "TOKEN".toList

end CqlCanon
