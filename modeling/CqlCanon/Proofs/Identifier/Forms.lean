import CqlCanon.Proofs.Written.WellFormed
import Mathlib.Data.List.TakeWhile
import Mathlib.Logic.ExistsUnique

/-!
# The forms of identifiers

A text is an identifier if it has one of three forms, and it never has two of
them: a quoted text, a name that is not reserved, or a call of a function that
is not reserved. What is wrong with any other text can be told from its shape.
-/

namespace CqlCanon

namespace Text

/-- Each `c` of the text belongs to a pair `cc`, when the text is read from the left. -/
inductive Doubled (c : Char) : Text → Prop where
  | nil : Doubled c []
  | pair {t : Text} : Doubled c t → Doubled c (c :: c :: t)
  | other {d : Char} {t : Text} : d ≠ c → Doubled c t → Doubled c (d :: t)

/-- The text has quotes around something in which all quotes are doubled. -/
def IsQuoted (t : Text) : Prop := ∃ u, u ≠ [] ∧ Doubled '"' u ∧ t = '"' :: u ++ ['"']

/-- The text is a letter, then letters, digits and `_`, all of them ASCII. -/
def IsWord (t : Text) : Prop :=
  ∃ c u, t = c :: u ∧ c.isAlpha = true ∧ ∀ x ∈ u, x.isAlphanum = true ∨ x = '_'

/-- The text is a word followed by something in parentheses. -/
def IsCallOf (t f : Text) : Prop := f.IsWord ∧ ∃ u, t = f ++ '(' :: u ++ [')']

/-- The text has the lower case of a reserved word. -/
def IsReserved (t : Text) : Prop := ∃ w ∈ reservedWords, lower t = asciiLower w

/-- The text uses a reserved word as a name, or one other than `token` as a function. -/
def MisusesReserved (t : Text) : Prop :=
  t.IsWord ∧ t.IsReserved ∨
    ∃ f, t.IsCallOf f ∧ f.IsReserved ∧ lower f ≠ "token".toList

variable {t f : Text}

/-! ## Words -/

theorem isWord_iff : Identifier.isNameForm t = true ↔ t.IsWord := by
  constructor
  · intro h
    obtain ⟨c, u, rfl, hc⟩ := nameForm_head h
    refine ⟨c, u, rfl, hc, fun x hx => ?_⟩
    simpa [isNameChar] using isNameChar_of_nameForm h x (List.mem_cons_of_mem c hx)
  · rintro ⟨c, u, rfl, hc, hu⟩
    have hall : ∀ x ∈ u, isNameChar x = true := fun x hx => by simpa [isNameChar] using hu x hx
    have htake : u.takeWhile isNameChar = u := List.takeWhile_eq_self_iff.2 hall
    simp [Identifier.isNameForm, nameLength?, show isLetter c = true from hc, htake]

theorem IsWord.isNameChar (h : t.IsWord) : ∀ c ∈ t, isNameChar c = true :=
  isNameChar_of_nameForm (isWord_iff.2 h)

theorem IsWord.ascii (h : t.IsWord) : ∀ c ∈ t, c.toNat < 128 :=
  fun c hc => toNat_lt_of_isNameChar (h.isNameChar c hc)

theorem IsWord.head (h : t.IsWord) : ∃ c u, t = c :: u ∧ isLetter c = true := by
  obtain ⟨c, u, ht, hc, -⟩ := h
  exact ⟨c, u, ht, hc⟩

/-! ## Reserved words -/

theorem toLower_toUpper {c : Char} (h : c.toNat < 128) : c.toUpper.toLower = c.toLower :=
  eq_of_beq (ascii_forall (p := fun c => c.toUpper.toLower == c.toLower) (by decide +kernel) h)

theorem toUpper_toLower {c : Char} (h : c.toNat < 128) : c.toLower.toUpper = c.toUpper :=
  eq_of_beq (ascii_forall (p := fun c => c.toLower.toUpper == c.toUpper) (by decide +kernel) h)

theorem upper_of_ascii (h : ∀ c ∈ t, c.toNat < 128) : upper t = t.map Char.toUpper := by
  induction t with
  | nil => rfl
  | cons c t ih =>
    rw [upper_cons, upperChar_of_ascii (h c (by simp)), ih fun d hd => h d (by simp [hd])]
    rfl

theorem upper_eq_iff_lower_eq {w : Text} (h : t.IsWord)
    (hw : upper w = w ∧ w.all (·.toNat < 128) = true) : upper t = w ↔ lower t = asciiLower w := by
  have hascii : ∀ c ∈ w, c.toNat < 128 := fun c hc =>
    of_decide_eq_true (List.all_eq_true.1 hw.2 c hc)
  rw [lower_of_ascii h.ascii, upper_of_ascii h.ascii]
  constructor
  · rintro rfl
    rw [asciiLower, asciiLower, List.map_map]
    exact (List.map_congr_left fun c hc => toLower_toUpper (h.ascii c hc)).symm
  · intro hlower
    have hcapitals : w.map Char.toUpper = w := (upper_of_ascii hascii).symm.trans hw.1
    have := congrArg (List.map Char.toUpper) hlower
    rw [asciiLower, asciiLower, List.map_map, List.map_map] at this
    calc t.map Char.toUpper
        = t.map (Char.toUpper ∘ Char.toLower) :=
          List.map_congr_left fun c hc => (toUpper_toLower (h.ascii c hc)).symm
      _ = w.map (Char.toUpper ∘ Char.toLower) := this
      _ = w.map Char.toUpper := List.map_congr_left fun c hc => toUpper_toLower (hascii c hc)
      _ = w := hcapitals

theorem reservedWords_capitals :
    ∀ w ∈ reservedWords, upper w = w ∧ w.all (·.toNat < 128) = true := by decide +kernel

theorem isReserved_iff (h : t.IsWord) : isReserved t = true ↔ t.IsReserved := by
  rw [isReserved, List.contains_iff_mem]
  constructor
  · intro hw
    exact ⟨_, hw, (upper_eq_iff_lower_eq h (reservedWords_capitals _ hw)).1 rfl⟩
  · rintro ⟨w, hw, hlower⟩
    rw [(upper_eq_iff_lower_eq h (reservedWords_capitals w hw)).2 hlower]
    exact hw

theorem isReservedFunction_iff (h : f.IsWord) :
    isReservedFunction f = true ↔ f.IsReserved ∧ lower f ≠ "token".toList := by
  have htoken : upper f = "TOKEN".toList ↔ lower f = "token".toList :=
    upper_eq_iff_lower_eq (w := "TOKEN".toList) h (by decide)
  rw [isReservedFunction, Bool.and_eq_true, isReserved_iff h, bne_iff_ne, ne_eq, htoken]

end Text

namespace Identifier

variable {t f : Text}

/-! ## The quoted form -/

theorem closesQuote_append {u : Text} (h : Text.Doubled '"' u) :
    closesQuote (u ++ ['"']) = true := by
  induction h with
  | nil => rfl
  | pair _ ih => simpa [closesQuote] using ih
  | @other d u hd _ ih =>
    obtain ⟨e, v, hv⟩ := List.exists_cons_of_ne_nil (l := u ++ ['"']) (by simp)
    rw [List.cons_append, hv, closesQuote, if_neg hd, ← hv, ih]

theorem exists_of_closesQuote (h : closesQuote t = true) :
    ∃ u, Text.Doubled '"' u ∧ t = u ++ ['"'] := by
  fun_induction closesQuote t with
  | case1 => cases h
  | case2 c =>
    obtain rfl : c = '"' := by simpa using h
    exact ⟨[], .nil, rfl⟩
  | case3 d t ih =>
    simp only [Bool.and_eq_true, decide_eq_true_eq] at h
    obtain ⟨rfl, ht⟩ := h
    obtain ⟨u, hu, rfl⟩ := ih ht
    exact ⟨_, .pair hu, rfl⟩
  | case4 c d t hc ih =>
    obtain ⟨u, hu, ht⟩ := ih h
    exact ⟨_, .other hc hu, by rw [ht]; rfl⟩

theorem isQuotedForm_iff : isQuotedForm t = true ↔ t.IsQuoted := by
  constructor
  · intro h
    cases t with
    | nil => cases h
    | cons c t =>
      simp only [isQuotedForm, Bool.and_eq_true, decide_eq_true_eq, bne_iff_ne] at h
      obtain ⟨⟨rfl, hclose⟩, hne⟩ := h
      obtain ⟨u, hu, rfl⟩ := exists_of_closesQuote hclose
      exact ⟨u, fun e => hne (by rw [e]; rfl), hu, rfl⟩
  · rintro ⟨u, hne, hu, rfl⟩
    simp [isQuotedForm, closesQuote_append hu, hne]

/-! ## Calls -/

theorem function?_eq_some_iff : function? t = some f ↔ t.IsCallOf f := by
  constructor
  · intro h
    unfold function? at h
    split at h
    · cases h
    · rename_i n hn
      split at h
      · rename_i hc
        cases h
        obtain ⟨name, rest, rfl, rfl, -, hname, -⟩ := Text.nameLength?_split hn
        obtain ⟨hopen, hclose⟩ := hc
        rw [List.drop_left] at hopen
        obtain ⟨v, rfl⟩ := List.head?_eq_some_iff.1 hopen
        rw [show name ++ '(' :: v = (name ++ ['(']) ++ v by simp,
          List.drop_left' (by simp)] at hclose
        obtain ⟨u, rfl⟩ := List.getLast?_eq_some_iff.1 hclose
        rw [List.take_left]
        refine ⟨Text.isWord_iff.1 ?_, u, by simp⟩
        have := Text.nameLength?_take hn
        rw [List.take_left] at this
        exact decide_eq_true this
      · cases h
  · rintro ⟨hf, u, rfl⟩
    have hlen : Text.nameLength? (f ++ '(' :: u ++ [')']) = some f.length := by
      rw [List.append_assoc]
      exact Text.nameLength?_append (Token.whole_word_iff.2 (Text.isWord_iff.2 hf))
        (show Text.isNameChar '(' = false by decide)
    rw [function?, hlen]
    simp [List.drop_append, List.getLast?_append]

/-! ## The forms -/

/-- The forms of identifiers. -/
inductive Form where
  | quoted
  | name
  | call
  deriving DecidableEq, Repr

def Form.Fits : Form → Text → Prop
  | quoted, t => t.IsQuoted
  | name, t => t.IsWord ∧ ¬ t.IsReserved
  | call, t => ∃ f, t.IsCallOf f ∧ (f.IsReserved → Text.lower f = "token".toList)

theorem not_isQuoted_of_append {u : Text} (hf : f.IsWord) (ht : t = f ++ u) : ¬ t.IsQuoted := by
  rintro ⟨v, -, -, hq⟩
  obtain ⟨c, w, rfl, hc⟩ := hf.head
  rw [hq] at ht
  obtain rfl : '"' = c := (List.cons.inj ht).1
  exact absurd hc (by decide)

theorem not_isQuoted_of_isWord (h : t.IsWord) : ¬ t.IsQuoted :=
  not_isQuoted_of_append h (List.append_nil t).symm

theorem not_isQuoted_of_isCallOf (h : t.IsCallOf f) : ¬ t.IsQuoted := by
  obtain ⟨hf, u, ht⟩ := h
  exact not_isQuoted_of_append hf (ht.trans (List.append_assoc _ _ _))

theorem not_isWord_of_isCallOf (h : t.IsCallOf f) : ¬ t.IsWord := by
  intro ht
  obtain ⟨-, u, rfl⟩ := h
  exact absurd (ht.isNameChar '(' (by simp)) (by decide)

theorem Form.eq_of_fits {form form' : Form} (h : form.Fits t) (h' : form'.Fits t) :
    form = form' := by
  have quoted_name : quoted.Fits t → ¬ name.Fits t := fun hq hn => not_isQuoted_of_isWord hn.1 hq
  have quoted_call : quoted.Fits t → ¬ call.Fits t := fun hq ⟨_, hf, _⟩ =>
    not_isQuoted_of_isCallOf hf hq
  have name_call : name.Fits t → ¬ call.Fits t := fun hn ⟨f, hf, _⟩ =>
    not_isWord_of_isCallOf hf hn.1
  cases form <;> cases form'
  case quoted.quoted | name.name | call.call => rfl
  case quoted.name => exact absurd h' (quoted_name h)
  case quoted.call => exact absurd h' (quoted_call h)
  case name.quoted => exact absurd h (quoted_name h')
  case name.call => exact absurd h' (name_call h)
  case call.quoted => exact absurd h (quoted_call h')
  case call.name => exact absurd h (name_call h')

/-! ## What is wrong with a text -/

theorem fault?_of_isQuoted (h : t.IsQuoted) : fault? t = none := if_pos (isQuotedForm_iff.2 h)

theorem fault?_of_isWord (h : t.IsWord) :
    fault? t = if isReserved t then some .reserved else none := by
  have hq : isQuotedForm t ≠ true := mt isQuotedForm_iff.1 (not_isQuoted_of_isWord h)
  rw [fault?, if_neg hq, if_pos (Text.isWord_iff.2 h)]

theorem fault?_of_isCallOf (h : t.IsCallOf f) :
    fault? t = if isReservedFunction f then some .reserved else none := by
  have hq : isQuotedForm t = false := by
    rw [← Bool.not_eq_true, isQuotedForm_iff]
    exact not_isQuoted_of_isCallOf h
  have hn : isNameForm t = false := by
    rw [← Bool.not_eq_true, Text.isWord_iff]
    exact not_isWord_of_isCallOf h
  exact fault?_of_function? (function?_eq_some_iff.2 h) hq hn

theorem fault?_of_shapeless (hq : ¬ t.IsQuoted) (hw : ¬ t.IsWord) (hc : ∀ f, ¬ t.IsCallOf f) :
    fault? t = if t = [] then some .empty else some .malformed := by
  have hfun : function? t = none := Option.eq_none_iff_forall_ne_some.2 fun f hf =>
    hc f (function?_eq_some_iff.1 hf)
  rw [fault?, if_neg (mt isQuotedForm_iff.1 hq), if_neg (mt Text.isWord_iff.1 hw), hfun]
  cases t <;> simp

/-- A text is quoted, a word or a call, or it is nothing of these. -/
theorem shape_cases (t : Text) : t.IsQuoted ∨ t.IsWord ∨ (∃ f, t.IsCallOf f) ∨
    ¬ t.IsQuoted ∧ ¬ t.IsWord ∧ ∀ f, ¬ t.IsCallOf f := by
  by_cases hq : t.IsQuoted
  · exact .inl hq
  · by_cases hw : t.IsWord
    · exact .inr (.inl hw)
    · by_cases hc : ∃ f, t.IsCallOf f
      · exact .inr (.inr (.inl hc))
      · exact .inr (.inr (.inr ⟨hq, hw, not_exists.1 hc⟩))

theorem misusesReserved_iff_of_isWord (h : t.IsWord) : t.MisusesReserved ↔ t.IsReserved :=
  ⟨fun hm => hm.elim And.right fun ⟨_, hf, _⟩ => absurd h (not_isWord_of_isCallOf hf),
    fun hr => .inl ⟨h, hr⟩⟩

theorem misusesReserved_iff_of_isCallOf (h : t.IsCallOf f) :
    t.MisusesReserved ↔ f.IsReserved ∧ Text.lower f ≠ "token".toList := by
  constructor
  · rintro (⟨hw, -⟩ | ⟨g, hg, hr⟩)
    · exact absurd hw (not_isWord_of_isCallOf h)
    · have hfg := (function?_eq_some_iff.2 h).symm.trans (function?_eq_some_iff.2 hg)
      cases hfg
      exact hr
  · exact fun hr => .inr ⟨f, h, hr⟩

theorem fault?_eq_none_iff : fault? t = none ↔ ∃ form : Form, form.Fits t := by
  constructor
  · intro h
    rcases shape_cases t with hq | hw | ⟨f, hf⟩ | ⟨hq, hw, hc⟩
    · exact ⟨.quoted, hq⟩
    · rw [fault?_of_isWord hw] at h
      exact ⟨.name, hw, fun hr => by simp [(Text.isReserved_iff hw).2 hr] at h⟩
    · rw [fault?_of_isCallOf hf] at h
      refine ⟨.call, f, hf, fun hr => Decidable.byContradiction fun hne => ?_⟩
      simp [(Text.isReservedFunction_iff hf.1).2 ⟨hr, hne⟩] at h
    · rw [fault?_of_shapeless hq hw hc] at h
      split at h <;> cases h
  · rintro ⟨form, h⟩
    cases form with
    | quoted => exact fault?_of_isQuoted h
    | name => rw [fault?_of_isWord h.1, if_neg (mt (Text.isReserved_iff h.1).1 h.2)]
    | call =>
      obtain ⟨f, hf, hr⟩ := h
      rw [fault?_of_isCallOf hf, if_neg]
      exact fun h => ((Text.isReservedFunction_iff hf.1).1 h).2
        (hr ((Text.isReservedFunction_iff hf.1).1 h).1)

theorem fault?_eq_reserved_iff : fault? t = some .reserved ↔ t.MisusesReserved := by
  rcases shape_cases t with hq | hw | ⟨f, hf⟩ | ⟨hq, hw, hc⟩
  · have hmisuse : ¬ t.MisusesReserved := by
      rintro (⟨hw, -⟩ | ⟨f, hf, -⟩)
      · exact not_isQuoted_of_isWord hw hq
      · exact not_isQuoted_of_isCallOf hf hq
    simp [fault?_of_isQuoted hq, hmisuse]
  · rw [fault?_of_isWord hw, misusesReserved_iff_of_isWord hw, ← Text.isReserved_iff hw]
    simp
  · rw [fault?_of_isCallOf hf, misusesReserved_iff_of_isCallOf hf,
      ← Text.isReservedFunction_iff hf.1]
    simp
  · have hmisuse : ¬ t.MisusesReserved := by
      rintro (⟨h, -⟩ | ⟨f, hf, -⟩)
      · exact hw h
      · exact hc f hf
    rw [fault?_of_shapeless hq hw hc]
    split <;> simp [hmisuse]

theorem fault?_eq_empty_iff : fault? t = some .empty ↔ t = [] := by
  constructor
  · intro h
    rcases shape_cases t with hq | hw | ⟨f, hf⟩ | ⟨hq, hw, hc⟩
    · simp [fault?_of_isQuoted hq] at h
    · rw [fault?_of_isWord hw] at h
      split at h <;> cases h
    · rw [fault?_of_isCallOf hf] at h
      split at h <;> cases h
    · rw [fault?_of_shapeless hq hw hc] at h
      split at h
      · assumption
      · cases h
  · rintro rfl
    rfl

/-- A text that is no identifier is not refused for being a call. -/
theorem fault?_ne_functionCall : fault? t ≠ some .functionCall := by
  intro h
  unfold fault? at h
  repeat' split at h
  all_goals cases h

/-! ## The form that an identifier has -/

theorem quoted_iff (h : fault? t = none) : (mk t).quoted = true ↔ Form.quoted.Fits t := by
  obtain ⟨form, hform⟩ := fault?_eq_none_iff.1 h
  constructor
  · intro hq
    have head : ∀ {f u : Text}, f.IsWord → t ≠ f ++ u := by
      rintro f u hf rfl
      obtain ⟨c, v, rfl, hc⟩ := hf.head
      obtain rfl : c = '"' := by simpa [quoted] using hq
      exact absurd hc (by decide)
    cases form with
    | quoted => exact hform
    | name => exact absurd (List.append_nil t).symm (head hform.1)
    | call =>
      obtain ⟨f, ⟨hf, u, ht⟩, -⟩ := hform
      exact absurd (ht.trans (List.append_assoc _ _ _)) (head hf)
  · rintro ⟨u, -, -, rfl⟩
    rfl

theorem functionCall_iff (h : fault? t = none) :
    (mk t).functionCall = true ↔ Form.call.Fits t := by
  obtain ⟨form, hform⟩ := fault?_eq_none_iff.1 h
  constructor
  · intro hcall
    cases form with
    | quoted => simp [functionCall, (quoted_iff h).2 hform] at hcall
    | name =>
      simp only [functionCall, Bool.and_eq_true, decide_eq_true_eq] at hcall
      have hmem := List.mem_of_getLast? hcall.2
      exact absurd (hform.1.isNameChar _ hmem) (by decide)
    | call => exact hform
  · rintro ⟨f, hf, -⟩
    exact functionCall_of_function? (function?_eq_some_iff.2 hf)

theorem Reason.render_injective {r s : Reason} (h : r.render = s.render) : r = s := by
  cases r <;> cases s <;> first | rfl | exact absurd h (by decide)

theorem nameFault?_eq_some_iff {reason : Reason} : nameFault? t = some reason ↔
    fault? t = some reason ∨ reason = .functionCall ∧ Form.call.Fits t := by
  have hne := fault?_ne_functionCall (t := t)
  unfold nameFault?
  cases hf : fault? t with
  | some r =>
    rw [hf] at hne
    have hcall : ¬ Form.call.Fits t := fun hc => by
      rw [fault?_eq_none_iff.2 ⟨.call, hc⟩] at hf
      cases hf
    simp [hcall]
  | none =>
    have := functionCall_iff hf
    simp only
    split
    · rename_i hc
      simp [this.1 hc, eq_comm]
    · rename_i hc
      simp [mt this.2 hc]

/-! ## Accepted and refused texts -/

/-- The reason that is given for a text, when calls are refused as well or not. -/
structure RefusedFor (t : Text) (calls : Bool) (why : Text) : Prop where
  empty : why = "empty identifier".toList ↔ t = []
  reserved : why = "reserved keyword".toList ↔ t.MisusesReserved
  call : why = "function call is not a name".toList ↔ calls = true ∧ Form.call.Fits t
  malformed : why = "not a valid identifier".toList ↔
    t ≠ [] ∧ ¬ t.MisusesReserved ∧ ¬ (calls = true ∧ Form.call.Fits t)

theorem refusedFor_of_iff {calls : Bool} {reason : Reason} (hempty : reason = .empty ↔ t = [])
    (hreserved : reason = .reserved ↔ t.MisusesReserved)
    (hcall : reason = .functionCall ↔ calls = true ∧ Form.call.Fits t) :
    RefusedFor t calls reason.render := by
  have key : ∀ r : Reason, reason.render = r.render ↔ reason = r :=
    fun r => ⟨Reason.render_injective, congrArg Reason.render⟩
  refine ⟨(key .empty).trans hempty, (key .reserved).trans hreserved,
    (key .functionCall).trans hcall, (key .malformed).trans ?_⟩
  rw [ne_eq, ← hempty, ← hreserved, ← hcall]
  cases reason <;> simp

theorem refusedFor_of_fault? {reason : Reason} (h : fault? t = some reason) :
    RefusedFor t false reason.render := by
  have key : ∀ r, reason = r ↔ fault? t = some r := fun r => by rw [h, Option.some.injEq]
  refine refusedFor_of_iff ((key _).trans fault?_eq_empty_iff)
    ((key _).trans fault?_eq_reserved_iff) ((key _).trans ?_)
  simp [fault?_ne_functionCall]

theorem refusedFor_of_nameFault? {reason : Reason} (h : nameFault? t = some reason) :
    RefusedFor t true reason.render := by
  have key : ∀ r, reason = r ↔ fault? t = some r ∨ r = .functionCall ∧ Form.call.Fits t :=
    fun r => by rw [← nameFault?_eq_some_iff, h, Option.some.injEq]
  refine refusedFor_of_iff ((key _).trans ?_) ((key _).trans ?_) ((key _).trans ?_)
  · simp [fault?_eq_empty_iff]
  · simp [fault?_eq_reserved_iff]
  · simp [fault?_ne_functionCall]

/-- The identifiers are the texts that have one of the forms, which is the only one then, and the
names are those of them that are quoted or words. They are kept as they are, and their form shows at
their first and last character. All other texts are refused, each with its reason. -/
theorem parse_by_form (t : Text) (span : Span) :
    ((∃! form : Form, form.Fits t) ∧ parse t span = .ok ⟨t⟩ ∧
        ((mk t).quoted = true ↔ Form.quoted.Fits t) ∧
        ((mk t).functionCall = true ↔ Form.call.Fits t) ∨
      (∀ form : Form, ¬ form.Fits t) ∧
        ∃ e, parse t span = .error e ∧ e.text = t ∧ e.span = span ∧
          RefusedFor t false e.reason.render) ∧
    ((Form.quoted.Fits t ∨ Form.name.Fits t) ∧ parseName t span = .ok ⟨t⟩ ∨
      ¬ (Form.quoted.Fits t ∨ Form.name.Fits t) ∧
        ∃ e, parseName t span = .error e ∧ e.text = t ∧ e.span = span ∧
          RefusedFor t true e.reason.render) := by
  constructor
  · cases hf : fault? t with
    | none =>
      obtain ⟨form, hform⟩ := fault?_eq_none_iff.1 hf
      exact .inl ⟨⟨form, hform, fun form' h => Form.eq_of_fits h hform⟩,
        parse_eq_ok_iff.2 ⟨hf, rfl⟩, quoted_iff hf, functionCall_iff hf⟩
    | some reason =>
      refine .inr ⟨fun form h => ?_, ⟨t, span, reason⟩, parse_eq_error_iff.2 ⟨reason, hf, rfl⟩,
        rfl, rfl, refusedFor_of_fault? hf⟩
      rw [fault?_eq_none_iff.2 ⟨form, h⟩] at hf
      cases hf
  · cases hf : nameFault? t with
    | none =>
      refine .inl ⟨?_, parseName_eq_ok_iff.2 ⟨hf, rfl⟩⟩
      rcases form_of_nameFault? hf with hq | ⟨hn, hr⟩
      · exact .inl (isQuotedForm_iff.1 hq)
      · have hw := Text.isWord_iff.1 hn
        exact .inr ⟨hw, fun h => by simp [(Text.isReserved_iff hw).2 h] at hr⟩
    | some reason =>
      refine .inr ⟨fun h => ?_, ⟨t, span, reason⟩, parseName_eq_error_iff.2 ⟨reason, hf, rfl⟩,
        rfl, rfl, refusedFor_of_nameFault? hf⟩
      rcases nameFault?_eq_some_iff.1 hf with hfault | ⟨-, hcall⟩
      · rw [fault?_eq_none_iff.2 (h.elim (⟨.quoted, ·⟩) (⟨.name, ·⟩))] at hfault
        cases hfault
      · rcases h with h | h
        · cases Form.eq_of_fits h hcall
        · cases Form.eq_of_fits h hcall

end Identifier

end CqlCanon
