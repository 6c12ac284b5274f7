import CqlCanon.Draft.Read

/-!
# The grammar, without order

`x.Stands c d` says that the text from cursor `c` up to cursor `d` spells `x`.
Nothing is tried before anything else: a part spells whatever one of its forms
spells, what is optional may be there or not, and lists go on for as long as
they like. The one preference is that a name does not stand where a constant
can. Names are texts here; they are not checked.
-/

namespace CqlCanon

namespace Cursor

variable {α : Type}

/-- Items, each after a separator. -/
def MoreStand (separator : Cursor → Option Cursor) (item : α → Cursor → Cursor → Prop) :
    List α → Cursor → Cursor → Prop
  | [], c, d => c = d
  | a :: as, c, d =>
    ∃ e f, separator c = some e ∧ item a e f ∧ MoreStand separator item as f d

/-- One item or more, with separators between them. -/
def SequenceStands (separator : Cursor → Option Cursor) (item : α → Cursor → Cursor → Prop) :
    List α → Cursor → Cursor → Prop
  | [], _, _ => False
  | a :: as, c, d => ∃ e, item a c e ∧ MoreStand separator item as e d

/-- Items with commas between them; there may be none. -/
def ItemsStand (item : α → Cursor → Cursor → Prop) : List α → Cursor → Cursor → Prop
  | [], c, d => c = d
  | a :: as, c, d => SequenceStands (symbol? ',') item (a :: as) c d

/-- An item that may be left out. -/
def OptionStands (item : α → Cursor → Cursor → Prop) : Option α → Cursor → Cursor → Prop
  | none, c, d => c = d
  | some a, c, d => item a c d

/-- A part without content that may be left out. -/
def FlagStands (part : Cursor → Option Cursor) : Bool → Cursor → Cursor → Prop
  | false, c, d => c = d
  | true, c, d => part c = some d

end Cursor

open Cursor

/-! ## Names, terms and calls -/

/-- A name, quoted or not. -/
def Text.StandsAsName (t : Text) (c d : Cursor) : Prop :=
  c.token? (.quoted '"') = some (t, d) ∨ c.token? .plainName = some (t, d)

def Constant.word : Constant → String
  | true => "TRUE"
  | false => "FALSE"
  | null => "NULL"

def Constant.Stands (k : Constant) (c d : Cursor) : Prop := c.keyword? k.word = some d

namespace Term

mutual

def Stands : Term → Cursor → Cursor → Prop
  | number t, c, d => c.token? .number = some (t, d)
  | string t, c, d => c.token? (.quoted '\'') = some (t, d)
  | positional, c, d => c.symbol? '?' = some d
  | bind t, c, d => c.token? .bindMarker = some (t, d)
  | constant k, c, d => k.Stands c d
  | list ts, c, d => ∃ e f, c.symbol? '(' = some e ∧ AllStand ts e f ∧ f.symbol? ')' = some d

/-- Terms with commas between them; there may be none. -/
def AllStand : List Term → Cursor → Cursor → Prop
  | [], c, d => c = d
  | t :: ts, c, d => ∃ e, t.Stands c e ∧ OthersStand ts e d

/-- Terms, each after a comma. -/
def OthersStand : List Term → Cursor → Cursor → Prop
  | [], c, d => c = d
  | t :: ts, c, d => ∃ e f, c.symbol? ',' = some e ∧ t.Stands e f ∧ OthersStand ts f d

end

end Term

mutual

def Call.Stands : Call → Cursor → Cursor → Prop
  | .star f, c, d => ∃ e g h, c.token? .word = some (f, e) ∧ e.symbol? '(' = some g ∧
      g.symbol? '*' = some h ∧ h.symbol? ')' = some d
  | .apply f as, c, d => ∃ e g h, c.token? .word = some (f, e) ∧ e.symbol? '(' = some g ∧
      Argument.AllStand as g h ∧ h.symbol? ')' = some d

def Argument.Stands : Argument → Cursor → Cursor → Prop
  | .call x, c, d => x.Stands c d
  | .term t, c, d => t.Stands c d
  | .name t, c, d => t.StandsAsName c d ∧ ∀ (k : Constant) (e : Cursor), ¬ k.Stands c e

/-- Arguments with commas between them; there may be none. -/
def Argument.AllStand : List Argument → Cursor → Cursor → Prop
  | [], c, d => c = d
  | a :: as, c, d => ∃ e, a.Stands c e ∧ Argument.OthersStand as e d

/-- Arguments, each after a comma. -/
def Argument.OthersStand : List Argument → Cursor → Cursor → Prop
  | [], c, d => c = d
  | a :: as, c, d => ∃ e f, c.symbol? ',' = some e ∧ a.Stands e f ∧ Argument.OthersStand as f d

end

/-! ## The parts of a statement -/

/-- `AS` and an alias. -/
def Named.AliasStands (label : Text) (c d : Cursor) : Prop :=
  ∃ e, c.keyword? "AS" = some e ∧ label.StandsAsName e d

namespace Selector

/-- A column or a call, with its alias. -/
def Stands : Selector Text → Cursor → Cursor → Prop
  | star, _, _ => False
  | column n, c, d => ∃ e, n.name.StandsAsName c e ∧ OptionStands Named.AliasStands n.alias? e d
  | function n, c, d => ∃ (call : Call) (e : Cursor), call.render = n.name ∧ call.Stands c e ∧
      OptionStands Named.AliasStands n.alias? e d

/-- All that is selected. -/
def AllStand (columns : List (Selector Text)) (c d : Cursor) : Prop :=
  (columns = [star] ∧ c.symbol? '*' = some d) ∨ SequenceStands (symbol? ',') Stands columns c d

end Selector

/-- A keyspace and the point after it. -/
def TableName.KeyspaceStands (keyspace : Text) (c d : Cursor) : Prop :=
  ∃ e, keyspace.StandsAsName c e ∧ e.symbol? '.' = some d

def TableName.Stands (t : TableName Text) (c d : Cursor) : Prop :=
  ∃ e, OptionStands KeyspaceStands t.keyspace c e ∧ t.name.StandsAsName e d

namespace Relation

def OperatorStands (operator : Text) (c d : Cursor) : Prop :=
  c.token? .comparison = some (operator, d) ∨
  operator = "IN".toList ∧ c.keyword? "IN" = some d ∨
  operator = "CONTAINS KEY".toList ∧ (∃ e, c.keyword? "CONTAINS" = some e ∧
    e.keyword? "KEY" = some d) ∨
  operator = "CONTAINS".toList ∧ c.keyword? "CONTAINS" = some d ∨
  operator = "LIKE".toList ∧ c.keyword? "LIKE" = some d

def Stands (r : Relation Text) (c d : Cursor) : Prop :=
  ∃ e f, r.column.StandsAsName c e ∧ OperatorStands r.operator e f ∧
    ∃ value : Term, value.render = r.value ∧ value.Stands f d

/-- `WHERE` and the conditions after it, or nothing. -/
def AllStand : List (Relation Text) → Cursor → Cursor → Prop
  | [], c, d => c = d
  | relations, c, d => ∃ e, c.keyword? "WHERE" = some e ∧
      SequenceStands (keyword? "AND") Stands relations e d

end Relation

namespace OrderKey

/-- A direction, which is ascending if it is left out. -/
def DirectionStands : Bool → Cursor → Cursor → Prop
  | true, c, d => c.keyword? "DESC" = some d
  | false, c, d => c.keyword? "ASC" = some d ∨ c = d

def Stands (k : OrderKey Text) (c d : Cursor) : Prop :=
  ∃ e, k.column.StandsAsName c e ∧ DirectionStands k.descending e d

/-- `ORDER BY` and the keys after it. -/
def AllStand (keys : List (OrderKey Text)) (c d : Cursor) : Prop :=
  ∃ e f, c.keyword? "ORDER" = some e ∧ e.keyword? "BY" = some f ∧
    SequenceStands (symbol? ',') Stands keys f d

end OrderKey

namespace Statement

/-! ## Statements -/

/-- The statement up to its table. -/
def HeadStands (s : Statement Text) (c d : Cursor) : Prop :=
  ∃ c₁ c₂ c₃ c₄ c₅, c.keyword? "SELECT" = some c₁ ∧
    FlagStands (keyword? "DISTINCT") s.distinct c₁ c₂ ∧
    FlagStands (keyword? "JSON") s.json c₂ c₃ ∧
    Selector.AllStand s.columns c₃ c₄ ∧ c₄.keyword? "FROM" = some c₅ ∧ s.table.Stands c₅ d

/-- The conditions and the order. -/
def ClausesStand (s : Statement Text) (c d : Cursor) : Prop :=
  ∃ e, Relation.AllStand s.relations c e ∧ OptionStands OrderKey.AllStand s.order e d

/-- `LIMIT` and the digits after it. -/
def LimitDigitsStand (digits : Text) (c d : Cursor) : Prop :=
  ∃ e, c.keyword? "LIMIT" = some e ∧ e.token? .integer = some (digits, d)

def LimitStands (limit : Int) (c d : Cursor) : Prop :=
  ∃ digits, Text.intValue digits = limit ∧ LimitDigitsStand digits c d

/-- The limit and what comes after it, up to the end of the text. -/
def EndStands (s : Statement Text) (c : Cursor) : Prop :=
  ∃ d e f semicolon, OptionStands LimitStands s.limit c d ∧
    FlagStands (fun c => (c.keyword? "ALLOW").bind (keyword? "FILTERING")) s.filtering d e ∧
    FlagStands (symbol? ';') semicolon e f ∧ f.skip.rest = []

/-- The text, when its tabs are expanded, spells the statement. -/
def Stands (s : Statement Text) (t : Text) : Prop :=
  ∃ c d, s.HeadStands (start (Text.expandTabs t)) c ∧ s.ClausesStand c d ∧ s.EndStands d

end Statement

/-- The text spells a statement up to a limit that has too many digits. -/
def LimitTooLong (t : Text) : Prop :=
  ∃ (s : Statement Text) (c d e : Cursor) (digits : Text),
    s.HeadStands (start (Text.expandTabs t)) c ∧ s.ClausesStand c d ∧
    Statement.LimitDigitsStand digits d e ∧
    maxLimitDigits < digits.length - Text.signLength digits

end CqlCanon
