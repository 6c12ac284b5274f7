import CqlCanon.Draft.Clauses
import CqlCanon.Text.Tabs

/-!
# Reading statements

A statement is read from left to right, with one look ahead: `DISTINCT` and
`JSON` are flags only where selectors and `FROM` still follow, for they are also
names. Optional clauses that cannot be read are passed over, so what is wrong in
a clause is reported where the clause starts, as text left over.
-/

namespace CqlCanon

open Cursor

/-- Why a text is not a statement, or a statement is not written as a text. -/
inductive ReadError where
  /-- The text cannot be read on at a position. -/
  | unexpected (position : Nat)
  /-- The limit has too many digits. -/
  | limitTooLong
  /-- A name is not an identifier. -/
  | invalidIdentifier (e : InvalidIdentifier)
  deriving DecidableEq, Repr

/-- The most digits of a limit that is read or written. Leading zeros are counted. -/
def maxLimitDigits : Nat := 4300

namespace Draft

/-! ## Flags -/

/-- Whether selectors and `FROM` follow. -/
def selectorsFollow (c : Cursor) : Bool :=
  ((Selector.readAll? commentsEnd c).bind fun (_, d) => d.keyword? "FROM").isSome

/-- Reads `JSON` as a flag. -/
def readJson? (c : Cursor) : Option Cursor :=
  (c.keyword? "JSON").filter selectorsFollow

/-- Reads `DISTINCT` as a flag. -/
def readDistinct? (c : Cursor) : Option Cursor :=
  (c.keyword? "DISTINCT").filter fun d => (readJson? d).isSome || selectorsFollow d

/-! ## Up to the table -/

/-- Passes a key word that has to be there. -/
def expectKeyword (word : String) (c : Cursor) : Except ReadError Cursor :=
  match c.keyword? word with
  | some d => .ok d
  | none => .error (.unexpected (c.keywordFault word))

/-- Where the name of the first selector is reported: right after `JSON`, the blanks before it
count as part of it. -/
def firstPlace (json : Bool) (c : Cursor) : Nat := if json then c.commentsEnd else c.skip.position

/-- Reads selectors, which have to be there. When they are missing, the fault is that of a call,
which can be read on furthest. -/
def expectSelectors (json : Bool) (c : Cursor) :
    Except ReadError (List (Selector Located) × Cursor) :=
  match Selector.readAll? (firstPlace json) c with
  | some r => .ok r
  | none => .error (.unexpected (Call.faultAt c))

/-- Reads a table, which has to be there. -/
def expectTable (c : Cursor) : Except ReadError (TableName Located × Cursor) :=
  match TableName.read? c with
  | some r => .ok r
  | none => .error (.unexpected (TableName.faultAt c))

/-- Reads a statement up to its table. -/
def readHead (c : Cursor) : Except ReadError (Draft × Cursor) := do
  let c ← expectKeyword "SELECT" c
  let (distinct, c) := c.flag readDistinct?
  let (json, c) := c.flag readJson?
  let (columns, c) ← expectSelectors json c
  let c ← expectKeyword "FROM" c
  let (table, c) ← expectTable c
  return ({ distinct, json, columns, table }, c)

/-! ## After the table -/

/-- Reads `LIMIT` and the integer after it. -/
def readLimitDigits? (c : Cursor) : Option (Text × Cursor) :=
  (c.keyword? "LIMIT").bind (token? .integer)

/-- Reads a limit, if there is one. -/
def readLimit (c : Cursor) : Except ReadError (Option Int × Cursor) :=
  match readLimitDigits? c with
  | none => .ok (none, c)
  | some (t, d) =>
    if t.length - Text.signLength t ≤ maxLimitDigits then .ok (some (Text.intValue t), d)
    else .error .limitTooLong

/-- Passes `ALLOW FILTERING`. -/
def readFiltering? (c : Cursor) : Option Cursor :=
  (c.keyword? "ALLOW").bind (keyword? "FILTERING")

/-- Nothing but layout may be left. -/
def expectEnd (c : Cursor) : Except ReadError Unit :=
  if c.skip.rest.isEmpty then .ok () else .error (.unexpected c.skip.position)

/-- Reads the clauses after the table, up to the end of the text. -/
def readTail (head : Draft) (c : Cursor) : Except ReadError Draft := do
  let (relations, c) := c.optional Relation.readAll?
  let (order, c) := c.optional OrderKey.readAll?
  let (limit, c) ← readLimit c
  let (filtering, c) := c.flag readFiltering?
  let (_, c) := c.flag (symbol? ';')
  expectEnd c
  return { head with relations := relations.getD [], order, limit, filtering }

/-- Reads the draft of a statement. Positions count in the text without tabs. -/
def read (t : Text) : Except ReadError Draft := do
  let (head, c) ← readHead (start (Text.expandTabs t))
  readTail head c

end Draft

end CqlCanon
