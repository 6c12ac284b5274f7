import CqlCanon.Draft.Basic

/-!
# The names of a statement

`map` changes all names of a statement and nothing else. A check of all names
that succeeds is a `map`, and it succeeds where each of the `identifiers`
passes; these come in the order of the checks.
-/

namespace CqlCanon

variable {ν μ κ ε : Type}

/-! ## Changing all names -/

def Named.map (f : ν → μ) (n : Named ν) : Named μ := ⟨f n.name, n.alias?.map f⟩

def Selector.map (f : ν → μ) : Selector ν → Selector μ
  | star => star
  | column named => column (named.map f)
  | function named => function (named.map f)

def TableName.map (f : ν → μ) (t : TableName ν) : TableName μ := ⟨f t.name, t.keyspace.map f⟩

def Relation.map (f : ν → μ) (r : Relation ν) : Relation μ := ⟨f r.column, r.operator, r.value⟩

def OrderKey.map (f : ν → μ) (k : OrderKey ν) : OrderKey μ := ⟨f k.column, k.descending⟩

def Statement.map (f : ν → μ) (s : Statement ν) : Statement μ where
  distinct := s.distinct
  json := s.json
  columns := s.columns.map (Selector.map f)
  table := s.table.map f
  relations := s.relations.map (Relation.map f)
  order := s.order.map (List.map (OrderKey.map f))
  limit := s.limit
  filtering := s.filtering

theorem Named.map_map (f : ν → μ) (g : μ → κ) (n : Named ν) : (n.map f).map g = n.map (g ∘ f) := by
  simp [Named.map]

theorem Selector.map_map (f : ν → μ) (g : μ → κ) (s : Selector ν) :
    (s.map f).map g = s.map (g ∘ f) := by
  cases s <;> simp [Selector.map, Named.map_map]

theorem Statement.map_map (f : ν → μ) (g : μ → κ) (s : Statement ν) :
    (s.map f).map g = s.map (g ∘ f) := by
  simp only [Statement.map, List.map_map, Option.map_map, TableName.map]
  congr 2
  · exact funext (Selector.map_map f g)
  · exact funext fun keys => by simp [OrderKey.map]

theorem Selector.map_id (s : Selector ν) : s.map id = s := by
  cases s <;> simp [Selector.map, Named.map]

theorem Statement.map_id (s : Statement ν) : s.map id = s := by
  have h1 : Selector.map (id : ν → ν) = id := funext Selector.map_id
  have h2 : Relation.map (id : ν → ν) = id := rfl
  have h3 : OrderKey.map (id : ν → ν) = id := rfl
  cases s
  simp [Statement.map, TableName.map, h1, h2, h3]

/-! ## Checking all names -/

def Named.identifiers (n : Named ν) : List ν := n.alias?.toList ++ [n.name]

def Selector.identifiers : Selector ν → List ν
  | star => []
  | column named => named.identifiers
  | function named => named.identifiers

def TableName.identifiers (t : TableName ν) : List ν := t.keyspace.toList ++ [t.name]

/-- The names, in the order in which they are checked. -/
def Statement.identifiers (s : Statement ν) : List ν :=
  s.columns.flatMap Selector.identifiers ++ s.table.identifiers ++
    s.relations.map Relation.column ++ (s.order.getD []).map OrderKey.column

section Forall

variable {P : ν → Prop}

theorem Named.forall_identifiers {n : Named ν} :
    (∀ i ∈ n.identifiers, P i) ↔ (∀ i ∈ n.alias?.toList, P i) ∧ P n.name := by
  rw [Named.identifiers, List.forall_mem_append, List.forall_mem_singleton]

theorem TableName.forall_identifiers {t : TableName ν} :
    (∀ i ∈ t.identifiers, P i) ↔ (∀ i ∈ t.keyspace.toList, P i) ∧ P t.name := by
  rw [TableName.identifiers, List.forall_mem_append, List.forall_mem_singleton]

theorem Statement.forall_identifiers {s : Statement ν} :
    (∀ i ∈ s.identifiers, P i) ↔
      (∀ x ∈ s.columns, ∀ i ∈ x.identifiers, P i) ∧ (∀ i ∈ s.table.identifiers, P i) ∧
        (∀ r ∈ s.relations, P r.column) ∧ ∀ k ∈ s.order.getD [], P k.column := by
  simp only [Statement.identifiers, List.forall_mem_append, List.forall_mem_flatMap,
    List.forall_mem_map, and_assoc]

end Forall

theorem Named.identifiers_map (f : ν → μ) (n : Named ν) :
    (n.map f).identifiers = n.identifiers.map f := by
  cases h : n.alias? <;> simp [Named.identifiers, Named.map, h]

theorem Selector.identifiers_map (f : ν → μ) (s : Selector ν) :
    (s.map f).identifiers = s.identifiers.map f := by
  cases s <;> simp [Selector.identifiers, Selector.map, Named.identifiers_map]

theorem TableName.identifiers_map (f : ν → μ) (t : TableName ν) :
    (t.map f).identifiers = t.identifiers.map f := by
  cases h : t.keyspace <;> simp [TableName.identifiers, TableName.map, h]

theorem Statement.identifiers_map (f : ν → μ) (s : Statement ν) :
    (s.map f).identifiers = s.identifiers.map f := by
  have relations : Relation.column ∘ Relation.map f = f ∘ Relation.column := rfl
  have order : ((s.order.map (List.map (OrderKey.map f))).getD []).map OrderKey.column =
      ((s.order.getD []).map OrderKey.column).map f := by
    cases s.order with
    | none => rfl
    | some keys => simp [OrderKey.map]
  simp only [Statement.identifiers, Statement.map, TableName.identifiers_map, List.map_append, order,
    List.flatMap_map, List.map_flatMap, List.map_map, Selector.identifiers_map, relations]

/-- Results are equal where they are of one kind and hold the same. -/
instance decidableEqExcept [DecidableEq ε] [DecidableEq ν] : DecidableEq (Except ε ν)
  | .ok a, .ok b => decidable_of_iff (a = b) (by simp)
  | .error a, .error b => decidable_of_iff (a = b) (by simp)
  | .ok _, .error _ => isFalse (by simp)
  | .error _, .ok _ => isFalse (by simp)

theorem Except.bind_eq_ok_iff {x : Except ε ν} {g : ν → Except ε μ} {b : μ} :
    (x >>= g) = .ok b ↔ ∃ a, x = .ok a ∧ g a = .ok b := by
  cases x <;> simp [bind, Except.bind]

theorem Except.bind_eq_error_iff {x : Except ε ν} {g : ν → Except ε μ} {e : ε} :
    (x >>= g) = .error e ↔ x = .error e ∨ ∃ a, x = .ok a ∧ g a = .error e := by
  cases x <;> simp [bind, Except.bind]

theorem Except.map_eq_ok_iff {x : Except ε ν} {g : ν → μ} {b : μ} :
    x.map g = .ok b ↔ ∃ a, x = .ok a ∧ g a = b := by
  cases x <;> simp [Except.map]

section Check

variable {α β : Type} {g : α → Except ε β} {k : α → β} {P : α → Prop}

theorem mapM_eq_ok_iff (h : ∀ a b, g a = .ok b ↔ b = k a ∧ P a) {as : List α} {bs : List β} :
    as.mapM g = .ok bs ↔ bs = as.map k ∧ ∀ a ∈ as, P a := by
  induction as generalizing bs with
  | nil => simp [pure, Except.pure, eq_comm]
  | cons a as ih =>
    simp only [List.mapM_cons, Except.bind_eq_ok_iff, h, ih, pure, Except.pure, Except.ok.injEq]
    constructor
    · rintro ⟨b, ⟨rfl, ha⟩, cs, ⟨rfl, has⟩, rfl⟩
      exact ⟨rfl, by simpa using ⟨ha, has⟩⟩
    · rintro ⟨rfl, has⟩
      simp only [List.mem_cons, forall_eq_or_imp] at has
      exact ⟨_, ⟨rfl, has.1⟩, _, ⟨rfl, has.2⟩, rfl⟩

theorem map_eq_ok_iff {γ : Type} {j : β → γ} (h : ∀ a b, g a = .ok b ↔ b = k a ∧ P a) {a : α}
    {c : γ} : (g a).map j = .ok c ↔ c = j (k a) ∧ P a := by
  simp only [Except.map_eq_ok_iff, h]
  constructor
  · rintro ⟨_, ⟨rfl, ha⟩, rfl⟩
    exact ⟨rfl, ha⟩
  · rintro ⟨rfl, ha⟩
    exact ⟨_, ⟨rfl, ha⟩, rfl⟩

theorem checkOption_eq_ok_iff (h : ∀ a b, g a = .ok b ↔ b = k a ∧ P a) {o : Option α}
    {p : Option β} : checkOption g o = .ok p ↔ p = o.map k ∧ ∀ a ∈ o.toList, P a := by
  cases o with
  | none => simp [checkOption, eq_comm]
  | some a =>
    rw [checkOption, map_eq_ok_iff h]
    simp

end Check

section Traverse

variable {check : ν → Except ε μ} {f : ν → μ} {P : ν → Prop}
  (h : ∀ n m, check n = .ok m ↔ m = f n ∧ P n)

include h

theorem Named.traverse_eq_ok_iff (n : Named ν) (m : Named μ) :
    n.traverse check = .ok m ↔ m = n.map f ∧ ∀ a ∈ n.identifiers, P a := by
  simp only [Named.traverse, Except.bind_eq_ok_iff, checkOption_eq_ok_iff h, h, pure, Except.pure,
    Except.ok.injEq, Named.forall_identifiers]
  constructor
  · rintro ⟨_, ⟨rfl, hl⟩, _, ⟨rfl, hn⟩, rfl⟩
    exact ⟨rfl, hl, hn⟩
  · rintro ⟨rfl, hl, hn⟩
    exact ⟨_, ⟨rfl, hl⟩, _, ⟨rfl, hn⟩, rfl⟩

theorem Selector.traverse_eq_ok_iff (s : Selector ν) (r : Selector μ) :
    s.traverse check = .ok r ↔ r = s.map f ∧ ∀ a ∈ s.identifiers, P a := by
  cases s with
  | star => simp [Selector.traverse, Selector.map, Selector.identifiers, eq_comm]
  | column n => exact map_eq_ok_iff (Named.traverse_eq_ok_iff h)
  | function n => exact map_eq_ok_iff (Named.traverse_eq_ok_iff h)

theorem TableName.traverse_eq_ok_iff (t : TableName ν) (r : TableName μ) :
    t.traverse check = .ok r ↔ r = t.map f ∧ ∀ a ∈ t.identifiers, P a := by
  simp only [TableName.traverse, Except.bind_eq_ok_iff, checkOption_eq_ok_iff h, h, pure,
    Except.pure, Except.ok.injEq, TableName.forall_identifiers]
  constructor
  · rintro ⟨_, ⟨rfl, hk⟩, _, ⟨rfl, hn⟩, rfl⟩
    exact ⟨rfl, hk, hn⟩
  · rintro ⟨rfl, hk, hn⟩
    exact ⟨_, ⟨rfl, hk⟩, _, ⟨rfl, hn⟩, rfl⟩

theorem Statement.traverse_eq_ok_iff (s : Statement ν) (r : Statement μ) :
    s.traverse check = .ok r ↔ r = s.map f ∧ ∀ a ∈ s.identifiers, P a := by
  have hr : ∀ (a : Relation ν) b, a.traverse check = .ok b ↔ b = a.map f ∧ P a.column :=
    fun a b => map_eq_ok_iff h
  have hk : ∀ (a : OrderKey ν) b, a.traverse check = .ok b ↔ b = a.map f ∧ P a.column :=
    fun a b => map_eq_ok_iff h
  have ho : ∀ (as : List (OrderKey ν)) bs, as.mapM (OrderKey.traverse check) = .ok bs ↔
      bs = as.map (OrderKey.map f) ∧ ∀ a ∈ as, P a.column := fun as bs => mapM_eq_ok_iff hk
  have order : (∀ as ∈ s.order.toList, ∀ a ∈ as, P (OrderKey.column a)) ↔
      ∀ a ∈ s.order.getD [], P a.column := by cases s.order <;> simp
  simp only [Statement.traverse, Except.bind_eq_ok_iff, mapM_eq_ok_iff (Selector.traverse_eq_ok_iff h),
    TableName.traverse_eq_ok_iff h, mapM_eq_ok_iff hr, checkOption_eq_ok_iff ho, pure, Except.pure,
    Except.ok.injEq, Statement.forall_identifiers, order]
  constructor
  · rintro ⟨_, ⟨rfl, h1⟩, _, ⟨rfl, h2⟩, _, ⟨rfl, h3⟩, _, ⟨rfl, h4⟩, rfl⟩
    exact ⟨rfl, h1, h2, h3, h4⟩
  · rintro ⟨rfl, h1, h2, h3, h4⟩
    exact ⟨_, ⟨rfl, h1⟩, _, ⟨rfl, h2⟩, _, ⟨rfl, h3⟩, _, ⟨rfl, h4⟩, rfl⟩

end Traverse

/-! ## Identifiers of a draft -/

/-- The names of a draft as texts. -/
def Draft.contents (d : Draft) : Statement Text := d.map Located.text

/-- A draft has a statement where all its names are identifiers, and it has the same names. -/
theorem Draft.check_eq_ok_iff {d : Draft} {s : Select} : d.check = .ok s ↔
    s = d.contents.map Identifier.mk ∧ ∀ t ∈ d.contents.identifiers, Identifier.fault? t = none := by
  have h : ∀ (l : Located) (i : Identifier), l.check = .ok i ↔
      i = (Identifier.mk ∘ Located.text) l ∧ Identifier.fault? l.text = none := by
    intro l i
    rw [Located.check, Identifier.parse_eq_ok_iff]
    exact and_comm
  rw [Draft.check, Statement.traverse_eq_ok_iff h, Draft.contents, Statement.map_map,
    Statement.identifiers_map, List.forall_mem_map]

end CqlCanon
