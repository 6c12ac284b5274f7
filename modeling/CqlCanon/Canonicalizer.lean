import CqlCanon.Select

/-!
# Canonical texts against a keyspace

A canonicalizer may have a keyspace, which qualifies the tables of statements
that name no keyspace themselves. The keyspace is checked when the
canonicalizer is configured, and never changes. It is checked again wherever it
is written into a statement, and passes there.
-/

namespace CqlCanon

/-- A keyspace as a configuration gives it. -/
inductive Setting where
  | unset
  | text (t : Text)
  /-- Something other than a text. -/
  | other
  deriving DecidableEq, Repr

/-- Why a keyspace is not set. -/
inductive SettingError where
  | notText
  | invalid (e : InvalidIdentifier)
  /-- A configured canonicalizer does not change. -/
  | frozen
  deriving DecidableEq, Repr

def SettingError.render : SettingError → Text
  | notText => "Input should be a valid string".toList
  | invalid e => "Value error, ".toList ++ e.render
  | frozen => "Instance is frozen".toList

structure Canonicalizer where
  keyspace : Option Identifier
  deriving DecidableEq, Repr

namespace Canonicalizer

/-- The canonicalizer with a given keyspace, which has to be a name. -/
def configure : Setting → Except SettingError Canonicalizer
  | .unset => .ok ⟨none⟩
  | .text t =>
    match Identifier.parseName t (Span.of t) with
    | .ok keyspace => .ok ⟨some keyspace⟩
    | .error e => .error (.invalid e)
  | .other => .error .notText

/-- A change of the keyspace, which is always refused. -/
def reconfigure (_ : Canonicalizer) (_ : Setting) : Except SettingError Canonicalizer :=
  .error .frozen

/-- The keyspace for a statement that names none, if it is a name. -/
def checkKeyspace (keyspace : Identifier) : Except ReadError Identifier :=
  match Identifier.parseName keyspace.text (Span.of keyspace.text) with
  | .ok keyspace => .ok keyspace
  | .error e => .error (.invalidIdentifier e)

/-- The statement of a text, with its table qualified. -/
def parse (k : Canonicalizer) (t : Text) : Except ReadError Select := do
  let s ← Select.parse t
  match k.keyspace, s.table.keyspace with
  | some keyspace, none =>
    let keyspace ← checkKeyspace keyspace
    return s.qualify (some keyspace)
  | _, _ => return s

/-- The canonical text of the statement of a text. -/
def canonicalize (k : Canonicalizer) (t : Text) : Except ReadError Text :=
  k.parse t >>= Select.write

end Canonicalizer

end CqlCanon
