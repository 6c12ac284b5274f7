import CqlCanon.Proofs.Embedded
import CqlCanon.Proofs.Progress

/-!
# Canonical texts that are read again

The canonical text of a term or a call is read as that term or call in other
texts too: at the start, after a blank or an opening parenthesis, and before
whatever may follow it in a statement. All of it is read, and nothing else. The
arguments of a call, at any depth, are read at their places in its text as what
they are: calls, terms or names.
-/

namespace CqlCanon

open Cursor

namespace Text

/-- Nothing comes last, or what may come before a term or a call. -/
def Opens (t : Text) : Prop := ∀ c ∈ t.getLast?, c = ' ' ∨ c = '('

/-- Nothing comes first, or what may come after a term or a call. -/
def Closes (t : Text) : Prop := ∀ c ∈ t.head?, c = ' ' ∨ c = ',' ∨ c = ')' ∨ c = ';'

instance (t : Text) : Decidable t.Opens := Option.decidableForallMem t.getLast?

instance (t : Text) : Decidable t.Closes := Option.decidableForallMem t.head?

theorem Closes.any_eq_false {t : Text} (h : t.Closes) {p : Char → Bool}
    (hp : p ' ' = false ∧ p ',' = false ∧ p ')' = false ∧ p ';' = false) : t.head?.any p = false := by
  cases hx : t.head? with
  | none => rfl
  | some x =>
    obtain ⟨h1, h2, h3, h4⟩ := hp
    rcases h x hx with rfl | rfl | rfl | rfl <;> assumption

theorem Closes.endsNumber {t : Text} (h : t.Closes) : t.EndsNumber := by
  intro x hx
  rcases h x hx with rfl | rfl | rfl | rfl <;> decide

theorem Closes.head_ne_quote {t : Text} (h : t.Closes) : t.head? ≠ some '\'' := by
  intro hx
  exact absurd (h '\'' hx) (by decide)

end Text

/-! ## Terms and calls in other texts -/

section Stands

variable {c : Cursor} {r : Text}

theorem Term.Canonical.stands_at {t : Term} (h : t.Canonical) (hc : c.At (t.render ++ r))
    (hr : r.Closes) : ∃ d, t.Stands c d ∧ d.rest = r := by
  cases t with
  | number t =>
    obtain ⟨h⟩ := h
    exact hc.token?_of_length? (Text.numberLength?_append h hr.endsNumber)
  | string t =>
    obtain _ | ⟨h, -⟩ := h
    exact hc.token?_of_length? (h.quoted_append hr.head_ne_quote _)
  | positional =>
    obtain ⟨d, hd, hrest, -⟩ := hc.symbol?
    exact ⟨d, hd, hrest⟩
  | bind t =>
    obtain _ | _ | _ | h := h
    exact hc.token?_of_length? (h.bind_append (hr.any_eq_false (by decide)) _)
  | constant k =>
    exact hc.keyword? (by cases k <;> decide) (by cases k <;> decide) (hr.any_eq_false (by decide))
  | list ts =>
    obtain _ | _ | _ | _ | _ | h := h
    exact list_stands_at (fun t ht => (h t ht).spells) hc

theorem Call.Canonical.stands_at {x : Call} (h : x.Canonical) (hc : c.At (x.render ++ r)) :
    ∃ d, x.Stands c d ∧ d.rest = r := by
  have hspells := Call.canonical_spells.1 x h
  have hskip : (start x.render).skip = start x.render :=
    skip_of_layoutLength (by simpa [start] using hspells.solid [])
  have halone : (start x.render).At (x.render ++ []) := by
    rw [At, hskip, List.append_nil]
    exact ⟨rfl, rfl⟩
  obtain ⟨e, he, hnil⟩ := hspells.stands_at halone .nil
  obtain ⟨d, hd, hrest⟩ := Call.stands_append.1 x (r := r) he (by rw [hskip]; exact hc)
  exact ⟨d, hd, by rw [hrest, hnil, List.nil_append]⟩

end Stands

/-! ## Between two texts -/

namespace Cursor

variable {α : Type} {before u after : Text}

/-- Between the two texts all of `u` is read, as `a`, and nothing else. -/
def ReadsBetween (read : Cursor → Option (α × Cursor)) (before u after : Text) (a : α) : Prop :=
  read ((before ++ (u ++ after)).cursorAt before.length) =
    some (a, (before ++ (u ++ after)).cursorAt (before ++ u).length)

/-- A reader that makes progress ends where what is left begins. -/
theorem readsBetween {read : Cursor → Option (α × Cursor)} (hread : ∀ x p, Text.Progress x p read)
    {a : α} {d : Cursor} (h : read ((before ++ (u ++ after)).cursorAt before.length) = some (a, d))
    (hd : d.rest = after) : ReadsBetween read before u after a := by
  obtain ⟨q, rfl, -, hq⟩ := hread _ _ a d h
  have hlength := congrArg List.length hd
  simp only [Text.rest_cursorAt, List.length_drop, List.length_append] at hlength hq
  have hend : q = (before ++ u).length := by
    rw [List.length_append]
    omega
  rw [ReadsBetween, h, hend]

theorem at_between (hbefore : before.Opens) (hu : layoutLength (u ++ after) = 0) :
    ((before ++ (u ++ after)).cursorAt before.length).At (u ++ after) := by
  refine at_of_before List.drop_left hu ?_
  rw [Text.before_cursorAt, List.take_left]
  cases hx : before.getLast? with
  | none => rfl
  | some x => rcases hbefore x hx with rfl | rfl <;> decide

end Cursor

theorem Term.Canonical.readsBetween {t : Term} (h : t.Canonical) {before after : Text}
    (hbefore : before.Opens) (hafter : after.Closes) :
    ReadsBetween read? before t.render after t := by
  obtain ⟨d, hd, hrest⟩ := h.stands_at (at_between hbefore (h.spells.solid after)) hafter
  exact Cursor.readsBetween (fun _ _ => Text.progress_term) (read?_complete hd) hrest

theorem Call.Canonical.readsBetween {x : Call} (h : x.Canonical) {before : Text}
    (hbefore : before.Opens) (after : Text) : ReadsBetween read? before x.render after x := by
  have hsolid := (Call.canonical_spells.1 x h).solid after
  obtain ⟨d, hd, hrest⟩ := h.stands_at (at_between hbefore hsolid)
  exact Cursor.readsBetween (fun _ _ => Text.progress_call) (Call.readers_complete.1 x hd) hrest

/-- An argument is read as the kind it is, if a comma or a closing parenthesis follows it. -/
theorem Argument.Canonical.readsBetween {a : Argument} (h : a.Canonical) {before after : Text}
    (hbefore : before.Opens) (hafter : after.head? = some ',' ∨ after.head? = some ')') :
    ReadsBetween (read? Call.read?) before a.render after a := by
  have hspells := Call.canonical_spells.2 a h
  obtain ⟨x, t, rfl, hx⟩ : ∃ x t, after = x :: t ∧ (x = ',' ∨ x = ')') := by
    cases after with
    | nil => simp at hafter
    | cons x t => exact ⟨x, t, rfl, by simpa using hafter⟩
  have hbreaks : Text.Breaks (x :: t) := .cons (.inr (hx.imp_right .inr))
  obtain ⟨d, hd, hrest⟩ := hspells.stands_at (at_between hbefore (hspells.solid _)) hbreaks
  have hlayout : layoutLength (x :: t) = 0 :=
    layoutLength_of_head (by rcases hx with rfl | rfl <;> decide)
  have hends : Argument.Ends d := by
    rw [Argument.Ends, next, skip_of_layoutLength (hrest ▸ hlayout), hrest]
    simpa using hx
  exact Cursor.readsBetween (fun _ _ => Text.progress_argument)
    (Call.readers_complete.2 a hd hends) hrest

/-! ## The places of arguments -/

mutual

/-- The arguments of a call at all depths, with their places in its canonical text. -/
def Call.places : Call → List (Nat × Argument)
  | .star _ => []
  | .apply f as => Argument.placesFrom (f.length + 1) as

/-- The arguments inside an argument, with their places in it. -/
def Argument.places : Argument → List (Nat × Argument)
  | .call x => x.places
  | .term _ => []
  | .name _ => []

/-- Arguments and what is inside them, where the first one stands at `n`. -/
def Argument.placesFrom (n : Nat) : List Argument → List (Nat × Argument)
  | [] => []
  | a :: as => (n, a) :: (a.places.map (Prod.map (n + ·) id) ++
      Argument.placesFrom (n + a.render.length + 2) as)

end

/-- The argument stands at `n` in the text, in a place of an argument. -/
def Argument.HoldsAt (t : Text) (n : Nat) (a : Argument) : Prop :=
  ∃ v w, t = v ++ (a.render ++ w) ∧ v.length = n ∧ (v ≠ [] ∧ v.Opens) ∧
    (w.head? = some ',' ∨ w.head? = some ')')

namespace Argument

theorem HoldsAt.between {t : Text} {n : Nat} {a : Argument} (h : HoldsAt t n a) (v w : Text) :
    HoldsAt (v ++ (t ++ w)) (v.length + n) a := by
  obtain ⟨v', w', rfl, rfl, ⟨hne, hopens⟩, hw⟩ := h
  refine ⟨v ++ v', w' ++ w, by simp, by simp, ⟨by simp [hne], ?_⟩, ?_⟩
  · rwa [Text.Opens, List.getLast?_append_of_ne_nil _ hne]
  · rcases hw with hw | hw <;> simp [hw]

/-- The arguments of a list stand at their places, and so does what is inside them. -/
theorem holdsAt_of_placesFrom {as : List Argument}
    (h : ∀ a ∈ as, ∀ n b, (n, b) ∈ a.places → HoldsAt a.render n b) {v : Text}
    (hv : v ≠ [] ∧ v.Opens) {n : Nat} {b : Argument} (hb : (n, b) ∈ placesFrom v.length as) :
    HoldsAt (v ++ (List.intercalate ", ".toList (as.map render) ++ [')'])) n b := by
  induction as generalizing v with
  | nil => cases hb
  | cons a as ih =>
    obtain ⟨ha, has⟩ := List.forall_mem_cons.1 h
    rw [Text.intercalate_map_cons, List.append_assoc]
    rw [placesFrom, List.mem_cons, List.mem_append, List.mem_map] at hb
    rcases hb with hb | ⟨⟨m, b'⟩, hb, heq⟩ | hb
    · cases hb
      refine ⟨v, _, rfl, rfl, hv, ?_⟩
      cases as <;> simp
    · cases heq
      exact (ha m b' hb).between v _
    · cases as with
      | nil => cases hb
      | cons a' as =>
        have hnext : (v ++ (a.render ++ ", ".toList)) ≠ [] ∧ (v ++ (a.render ++ ", ".toList)).Opens := by
          refine ⟨by simp, fun c hc => .inl ?_⟩
          simpa [eq_comm] using hc
        have := ih has hnext (by simpa [Nat.add_assoc] using hb)
        rw [Text.intercalate_map_cons] at this
        simpa using this

end Argument

theorem Call.holdsAt_of_places :
    (∀ (x : Call) (n : Nat) (b : Argument), (n, b) ∈ x.places → b.HoldsAt x.render n) ∧
    ∀ (a : Argument) (n : Nat) (b : Argument), (n, b) ∈ a.places → b.HoldsAt a.render n := by
  apply Call.induction
  case star => exact fun f n b hb => (List.not_mem_nil hb).elim
  case apply =>
    intro f as ih n b hb
    rw [Call.places] at hb
    have hopening : f ++ ['('] ≠ [] ∧ (f ++ ['(']).Opens := by
      refine ⟨by simp, fun c hc => .inr ?_⟩
      simpa [eq_comm] using hc
    have := Argument.holdsAt_of_placesFrom ih hopening (by simpa using hb)
    simpa [Call.render, Argument.renderAll_eq_map] using this
  case call => exact fun x ih n b hb => ih n b hb
  case term => exact fun t n b hb => (List.not_mem_nil hb).elim
  case name => exact fun t n b hb => (List.not_mem_nil hb).elim

theorem Argument.of_mem_placesFrom {as : List Argument} {k n : Nat} {b : Argument}
    (h : (n, b) ∈ placesFrom k as) : ∃ a ∈ as, b = a ∨ ∃ m, (m, b) ∈ a.places := by
  induction as generalizing k with
  | nil => cases h
  | cons a as ih =>
    rw [placesFrom, List.mem_cons, List.mem_append, List.mem_map] at h
    rcases h with h | ⟨⟨m, b'⟩, hb, heq⟩ | h
    · cases h
      exact ⟨b, by simp, .inl rfl⟩
    · cases heq
      exact ⟨a, by simp, .inr ⟨m, hb⟩⟩
    · obtain ⟨a', ha', hb⟩ := ih h
      exact ⟨a', by simp [ha'], hb⟩

theorem Call.canonical_of_places :
    (∀ x : Call, x.Canonical → ∀ (n : Nat) (b : Argument), (n, b) ∈ x.places → b.Canonical) ∧
    ∀ a : Argument, a.Canonical → ∀ (n : Nat) (b : Argument), (n, b) ∈ a.places → b.Canonical := by
  apply Call.induction
  case star => exact fun f _ n b hb => (List.not_mem_nil hb).elim
  case apply =>
    rintro f as ih (_ | ⟨-, has⟩) n b hb
    obtain ⟨a, ha, rfl | ⟨m, hm⟩⟩ := Argument.of_mem_placesFrom hb
    · exact has b ha
    · exact ih a ha (has a ha) m b hm
  case call =>
    rintro x ih ⟨hx⟩ n b hb
    exact ih hx n b hb
  case term => exact fun t _ n b hb => (List.not_mem_nil hb).elim
  case name => exact fun t _ n b hb => (List.not_mem_nil hb).elim

theorem Argument.HoldsAt.readsBetween {t : Text} {n : Nat} {a : Argument} (h : HoldsAt t n a)
    (ha : a.Canonical) (before after : Text) : ∃ v w, t = v ++ (a.render ++ w) ∧ v.length = n ∧
      ReadsBetween (read? Call.read?) (before ++ v) a.render (w ++ after) a := by
  obtain ⟨v, w, rfl, rfl, ⟨hne, hopens⟩, hw⟩ := h
  refine ⟨v, w, rfl, rfl, ha.readsBetween ?_ ?_⟩
  · rwa [Text.Opens, List.getLast?_append_of_ne_nil _ hne]
  · rcases hw with hw | hw <;> simp [hw]

/-! ## What was read is read again -/

/-- The canonical text of a term or a call that was read anywhere is read as the same term or call
between two other texts, up to its end. Each argument of the call is then read where it stands, as
the same call, term or name. -/
theorem Text.canonical_reads_back {x before after : Text} {p : Nat} (hx : '\t' ∉ x)
    (hbefore : before.Opens) (hafter : after.Closes) :
    (∀ t d, Term.read? (x.cursorAt p) = some (t, d) →
      ReadsBetween Term.read? before t.render after t) ∧
    ∀ call d, Call.read? (x.cursorAt p) = some (call, d) →
      ReadsBetween Call.read? before call.render after call ∧
      ∀ n a, (n, a) ∈ call.places → ∃ v w, call.render = v ++ (a.render ++ w) ∧ v.length = n ∧
        ReadsBetween (Argument.read? Call.read?) (before ++ v) a.render (w ++ after) a := by
  have hclean := clean_cursorAt hx p
  refine ⟨fun t d h => ?_, fun call d h => ?_⟩
  · exact ((Term.read?_sound _ h).canonical hclean).1.readsBetween hbefore hafter
  · have hcanonical := (Call.stands_canonical.1 call (Call.read?_sound _ h) hclean).1
    refine ⟨hcanonical.readsBetween hbefore after, fun n a ha => ?_⟩
    exact (Call.holdsAt_of_places.1 call n a ha).readsBetween
      (Call.canonical_of_places.1 call hcanonical n a ha) before after

/-- A call from inside a list, with blanks and a constant in capitals, before the end of a statement. -/
theorem Text.canonical_reads_back_of_spaced : ∃ (x : Text) (call : Call) (d : Cursor),
    x = "(F( NULL,g( \"a b\" ) , x ), ?)".toList ∧ '\t' ∉ x ∧
    Opens "SELECT ".toList ∧ Closes ";".toList ∧ Call.read? (x.cursorAt 1) = some (call, d) ∧
    call.render = "F(null, g(\"a b\"), x)".toList ∧
    ReadsBetween Call.read? "SELECT ".toList call.render ";".toList call := by
  obtain ⟨x, hx⟩ : ∃ x : Text, x = "(F( NULL,g( \"a b\" ) , x ), ?)".toList := ⟨_, rfl⟩
  have htab : '\t' ∉ x := by
    subst hx
    decide
  have hread : (Call.read? (x.cursorAt 1)).map (fun r => r.1.render) =
      some "F(null, g(\"a b\"), x)".toList := by
    subst hx
    decide +kernel
  obtain ⟨⟨call, d⟩, hcall, hrender⟩ := Option.map_eq_some_iff.1 hread
  have hopens : Opens "SELECT ".toList := by decide
  have hcloses : Closes ";".toList := by decide
  exact ⟨x, call, d, hx, htab, hopens, hcloses, hcall, hrender,
    ((canonical_reads_back htab hopens hcloses).2 call d hcall).1⟩

end CqlCanon
