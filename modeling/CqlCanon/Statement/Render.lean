import CqlCanon.Statement.Basic
import CqlCanon.Text.Decimal

/-!
# The canonical text of a statement

One space between words, `, ` between items, key words in upper case, clauses
in a fixed order. An order without keys is still written as a clause.
-/

namespace CqlCanon

def Named.render (n : Named Identifier) : Text :=
  match n.alias? with
  | none => n.name.text
  | some label => n.name.text ++ " AS ".toList ++ label.text

def Selector.render : Selector Identifier → Text
  | star => "*".toList
  | column named => named.render
  | function named => named.render

def TableName.render (t : TableName Identifier) : Text :=
  match t.keyspace with
  | none => t.name.text
  | some keyspace => keyspace.text ++ ".".toList ++ t.name.text

def Relation.render (r : Relation Identifier) : Text :=
  r.column.text ++ " ".toList ++ r.operator ++ " ".toList ++ r.value

def OrderKey.render (k : OrderKey Identifier) : Text :=
  k.column.text ++ if k.descending then " DESC".toList else " ASC".toList

namespace Select

/-- The selectors, as they are written. -/
def renderColumns (columns : List (Selector Identifier)) : Text :=
  List.intercalate ", ".toList (columns.map Selector.render)

/-- The keys of an order, as they are written. -/
def renderOrder (keys : List (OrderKey Identifier)) : Text :=
  List.intercalate ", ".toList (keys.map OrderKey.render)

/-- The flags before the selectors. -/
def flags (s : Select) : Text :=
  (if s.distinct then "DISTINCT ".toList else []) ++ if s.json then "JSON ".toList else []

def whereClause (s : Select) : Text :=
  if s.relations.isEmpty then []
  else " WHERE ".toList ++ List.intercalate " AND ".toList (s.relations.map Relation.render)

def orderClause (s : Select) : Text :=
  match s.order with
  | none => []
  | some keys => " ORDER BY ".toList ++ renderOrder keys

def limitClause (s : Select) : Text :=
  match s.limit with
  | none => []
  | some limit => " LIMIT ".toList ++ Text.ofInt limit

def filteringClause (s : Select) : Text :=
  if s.filtering then " ALLOW FILTERING".toList else []

/-- The canonical text of a statement, with all digits of its limit. How many of them may be written
is up to `Select.write`. -/
def render (s : Select) : Text :=
  "SELECT ".toList ++ flags s ++ renderColumns s.columns ++ " FROM ".toList ++ s.table.render ++
    whereClause s ++ orderClause s ++ limitClause s ++ filteringClause s

end Select

end CqlCanon
