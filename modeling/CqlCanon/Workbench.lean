import CqlCanon.Canonicalizer

/-!
# A workbench for statements

A workbench holds a current statement, at first none, and statements saved
under names. An action that is refused leaves it as it was, and what is saved
stays until something else is saved under its name.
-/

namespace CqlCanon

/-- New values for some fields of a statement. -/
structure Changes where
  distinct : Option Bool := none
  json : Option Bool := none
  columns : Option (List (Selector Identifier)) := none
  table : Option (TableName Identifier) := none
  relations : Option (List (Relation Identifier)) := none
  order : Option (Option (List (OrderKey Identifier))) := none
  limit : Option (Option Int) := none
  filtering : Option Bool := none

/-- The statement with the changes made. -/
def Changes.apply (c : Changes) (s : Select) : Select where
  distinct := c.distinct.getD s.distinct
  json := c.json.getD s.json
  columns := c.columns.getD s.columns
  table := c.table.getD s.table
  relations := c.relations.getD s.relations
  order := c.order.getD s.order
  limit := c.limit.getD s.limit
  filtering := c.filtering.getD s.filtering

structure Workbench where
  current : Option Select := none
  saved : List (Text × Select) := []

namespace Workbench

/-- Actions on the current statement. -/
inductive Edit where
  | reread
  | replace (changes : Changes)
  | addColumn (selector : Selector Identifier)
  | addRelation (relation : Relation Identifier)
  /-- A change of a field in place. -/
  | assign (field : Text)
  | save (slot : Text)
  | compare (slot : Text)

inductive Action where
  | new (s : Select)
  | parse (keyspace : Setting) (t : Text)
  | load (slot : Text)
  | edit (e : Edit)

/-- Why an action is refused. -/
inductive Refusal where
  | setting (e : SettingError)
  | read (e : ReadError)
  /-- Statements do not change in place. -/
  | immutable (field : Text)
  /-- There is no statement to act on. -/
  | missing
  deriving DecidableEq, Repr

/-- The message for a change in place. -/
def immutableMessage (field : Text) : Text := "cannot assign to field ".toList ++ field.display

/-- What an action reports. -/
inductive Report where
  | done
  /-- Whether the statement that was read again is the same. -/
  | reread (equal : Bool)
  /-- Whether two statements are the same, and how many there are without repetition. -/
  | compared (equal : Bool) (distinct : Nat)
  | refused (e : Refusal)
  deriving DecidableEq, Repr

/-- The workbench with another current statement. -/
def put (w : Workbench) (s : Select) : Workbench := { w with current := some s }

/-- The statement saved under a name. -/
def slot? (w : Workbench) (slot : Text) : Option Select := w.saved.lookup slot

/-- An action on the current statement `s`. -/
def edit (w : Workbench) (s : Select) : Edit → Workbench × Report
  | .reread =>
    match Select.reread s with
    | .ok r => (w.put r, .reread (r = s))
    | .error e => (w, .refused (.read e))
  | .replace changes => (w.put (changes.apply s), .done)
  | .addColumn selector => (w.put (s.addColumn selector), .done)
  | .addRelation relation => (w.put (s.addRelation relation), .done)
  | .assign field => (w, .refused (.immutable field))
  | .save slot => ({ w with saved := (slot, s) :: w.saved }, .done)
  | .compare slot =>
    match w.slot? slot with
    | some r => (w, .compared (s = r) (if s = r then 1 else 2))
    | none => (w, .refused .missing)

/-- The workbench after an action, with the report of it. -/
def act (w : Workbench) : Action → Workbench × Report
  | .new s => (w.put s, .done)
  | .parse keyspace t =>
    match Canonicalizer.configure keyspace with
    | .error e => (w, .refused (.setting e))
    | .ok k =>
      match k.parse t with
      | .error e => (w, .refused (.read e))
      | .ok s => (w.put s, .done)
  | .load slot =>
    match w.slot? slot with
    | some s => (w.put s, .done)
    | none => (w, .refused .missing)
  | .edit e =>
    match w.current with
    | some s => w.edit s e
    | none => (w, .refused .missing)

/-- The workbench after some actions, with the report of each. -/
def run (w : Workbench) : List Action → Workbench × List Report
  | [] => (w, [])
  | a :: as =>
    let (v, r) := w.act a
    let (u, rs) := v.run as
    (u, r :: rs)

variable {w : Workbench} {s : Select} {slot : Text}

@[simp] theorem put_slot? : (w.put s).slot? slot = w.slot? slot := rfl

theorem slot?_save (w : Workbench) (s : Select) (slot : Text) :
    (w.edit s (.save slot)).1.slot? slot = some s :=
  List.lookup_cons_self

/-- An edit changes nothing, or it is accepted and puts a statement on the workbench, or it saves
the current one. -/
theorem edit_cases (w : Workbench) (s : Select) (e : Edit) : (w.edit s e).1 = w ∨
    (∃ t, (w.edit s e).1 = w.put t ∧ ∀ r, (w.edit s e).2 ≠ .refused r) ∨
    ∃ slot, e = .save slot := by
  cases e with
  | reread =>
    cases h : Select.reread s with
    | error e => exact .inl (by simp only [edit, h])
    | ok t => exact .inr (.inl ⟨t, by simp [edit, h]⟩)
  | replace changes => exact .inr (.inl ⟨changes.apply s, rfl, nofun⟩)
  | addColumn selector => exact .inr (.inl ⟨s.addColumn selector, rfl, nofun⟩)
  | addRelation relation => exact .inr (.inl ⟨s.addRelation relation, rfl, nofun⟩)
  | assign field => exact .inl rfl
  | save slot => exact .inr (.inr ⟨slot, rfl⟩)
  | compare slot => exact .inl (by cases h : w.slot? slot <;> simp only [edit, h])

theorem act_cases (w : Workbench) (a : Action) : (w.act a).1 = w ∨
    (∃ t, (w.act a).1 = w.put t ∧ ∀ r, (w.act a).2 ≠ .refused r) ∨
    ∃ slot s, a = .edit (.save slot) ∧ w.act a = w.edit s (.save slot) := by
  cases a with
  | new s => exact .inr (.inl ⟨s, rfl, nofun⟩)
  | parse keyspace t =>
    cases hk : Canonicalizer.configure keyspace with
    | error e => exact .inl (by simp only [act, hk])
    | ok k =>
      cases h : k.parse t with
      | error e => exact .inl (by simp only [act, hk, h])
      | ok s => exact .inr (.inl ⟨s, by simp [act, hk, h]⟩)
  | load slot =>
    cases h : w.slot? slot with
    | none => exact .inl (by simp only [act, h])
    | some s => exact .inr (.inl ⟨s, by simp [act, h]⟩)
  | edit e =>
    cases h : w.current with
    | none => exact .inl (by simp only [act, h])
    | some s =>
      have hact : w.act (.edit e) = w.edit s e := by simp only [act, h]
      rw [hact]
      refine (edit_cases w s e).imp_right (Or.imp_right ?_)
      rintro ⟨slot, rfl⟩
      exact ⟨slot, s, rfl, rfl⟩

theorem act_refused {a : Action} {e : Refusal} (h : (w.act a).2 = .refused e) :
    (w.act a).1 = w := by
  rcases act_cases w a with hw | ⟨-, -, hr⟩ | ⟨slot, s, -, hsave⟩
  · exact hw
  · exact absurd h (hr e)
  · rw [hsave] at h
    cases h

/-- Only an action that saves under a name changes what is saved under it. -/
theorem slot?_act {a : Action} (h : a ≠ .edit (.save slot)) :
    (w.act a).1.slot? slot = w.slot? slot := by
  rcases act_cases w a with hw | ⟨t, ht, -⟩ | ⟨other, s, rfl, hsave⟩
  · rw [hw]
  · rw [ht, put_slot?]
  · have hne : slot ≠ other := fun e => h (e ▸ rfl)
    rw [hsave]
    simp [edit, slot?, List.lookup_cons, beq_false_of_ne hne]

@[simp] theorem run_nil : w.run [] = (w, []) := rfl

@[simp] theorem run_cons (a : Action) (as : List Action) :
    w.run (a :: as) = (((w.act a).1.run as).1, (w.act a).2 :: ((w.act a).1.run as).2) := rfl

/-- Actions that are all refused leave the workbench as it was. -/
theorem run_refused {as : List Action} (h : ∀ r ∈ (w.run as).2, ∃ e, r = .refused e) :
    (w.run as).1 = w := by
  induction as generalizing w with
  | nil => rfl
  | cons a as ih =>
    rw [run_cons] at h ⊢
    obtain ⟨⟨e, he⟩, hrest⟩ := List.forall_mem_cons.1 h
    have hw := act_refused he
    exact (ih hrest).trans hw

theorem slot?_run {as : List Action} (h : .edit (.save slot) ∉ as) :
    (w.run as).1.slot? slot = w.slot? slot := by
  induction as generalizing w with
  | nil => rfl
  | cons a as ih =>
    have ha : a ≠ .edit (.save slot) := fun e => h (e ▸ List.mem_cons_self)
    rw [run_cons]
    exact (ih fun has => h (List.mem_cons_of_mem a has)).trans (slot?_act ha)

/-- A statement that was saved can be loaded, whatever was done since. -/
theorem load_run_save {as : List Action} (h : .edit (.save slot) ∉ as) :
    (((w.edit s (.save slot)).1.run as).1.act (.load slot)).1.current = some s := by
  have hslot := (slot?_run h).trans (slot?_save w s slot)
  simp only [act, hslot, put]

end Workbench

end CqlCanon
