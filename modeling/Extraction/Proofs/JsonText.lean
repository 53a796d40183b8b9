import Extraction.Plan.Json
import Extraction.Proofs.ImportLine
/-!
The text of a JSON value determines the value. No text of a value goes on as the text of another,
as long as what follows a number does not go on with it; so values can be told apart from the
left, and the printed text of a plan says all that the plan does.
-/

namespace Extraction

open Byte

theorem utf8_inj {s t : String} : utf8 s = utf8 t ↔ s = t := by
  constructor
  · intro h
    have hbytes : ∀ u : String, u.toByteArray = (utf8 u).toByteArray := by
      intro u
      rw [← String.ofList_toList (s := u), String.toByteArray_ofList, List.utf8Encode, utf8,
        String.toList_ofList]
    rw [← String.toByteArray_inj, hbytes, hbytes, h]
  · rintro rfl
    rfl

namespace Json

/-! Strings are read byte by byte up to the quote that ends them. -/

def hexValue (b : UInt8) : Nat :=
  if b < 0x57 then b.toNat - 0x30 else b.toNat - 0x57

def unescape : Bytes → Option (UInt8 × Bytes)
  | [] => none
  | b :: rest =>
      if b == backslash then
        match rest with
        | 0x62 :: rest => some (0x08, rest)
        | 0x66 :: rest => some (formFeed, rest)
        | 0x6E :: rest => some (lineFeed, rest)
        | 0x72 :: rest => some (carriageReturn, rest)
        | 0x74 :: rest => some (tab, rest)
        | 0x75 :: _ :: _ :: high :: low :: rest =>
            some (UInt8.ofNat (hexValue high * 16 + hexValue low), rest)
        | b :: rest => some (b, rest)
        | [] => none
      else some (b, rest)

theorem unescape_escapeByte (b : UInt8) (rest : Bytes) :
    unescape (escapeByte b ++ rest) = some (b, rest) := by
  have hcontrol : ∀ n < 0x20,
      UInt8.ofNat (hexValue (hexDigit (n / 16)) * 16 + hexValue (hexDigit (n % 16))) =
        UInt8.ofNat n := by
    decide
  unfold escapeByte
  split
  · next h => rw [eq_of_beq h]; rfl
  split
  · next h => rw [eq_of_beq h]; rfl
  split
  · next h => rw [eq_of_beq h]; rfl
  split
  · next h => rw [eq_of_beq h]; rfl
  split
  · next h => rw [eq_of_beq h]; rfl
  split
  · next h => rw [eq_of_beq h]; rfl
  split
  · next h => rw [eq_of_beq h]; rfl
  split
  · next h =>
      have hb := hcontrol b.toNat h
      rw [UInt8.ofNat_toNat] at hb
      simp only [List.cons_append, List.nil_append, unescape, beq_self_eq_true, if_true, hb]
  · next hbackslash _ _ _ _ _ _ =>
      simp only [List.cons_append, List.nil_append, unescape]
      rw [if_neg hbackslash]

theorem escapeByte_append_inj {b c : UInt8} {s t : Bytes}
    (h : escapeByte b ++ s = escapeByte c ++ t) : b = c ∧ s = t := by
  have hread := unescape_escapeByte b s
  rw [h, unescape_escapeByte] at hread
  cases hread
  exact ⟨rfl, rfl⟩

theorem head?_escapeByte (b : UInt8) (rest : Bytes) :
    (escapeByte b ++ rest).head? ≠ some doubleQuote := by
  have hbackslash : ∀ code : Bytes, (backslash :: code).head? ≠ some doubleQuote := by
    intro code h
    cases h
  unfold escapeByte
  split
  · exact hbackslash _
  · next hquote =>
      repeat' split
      all_goals first
        | exact hbackslash _
        | simpa using hquote

theorem quote_append_inj {x y s t : Bytes} (h : quote x ++ s = quote y ++ t) :
    x = y ∧ s = t := by
  simp only [quote, List.cons_append, List.cons.injEq, true_and, List.append_assoc,
    List.nil_append] at h
  induction x generalizing y with
  | nil =>
      cases y with
      | nil => simpa using h
      | cons c y =>
          rw [List.flatMap_cons, List.append_assoc] at h
          exact absurd (congrArg List.head? h).symm (head?_escapeByte _ _)
  | cons b x ih =>
      cases y with
      | nil =>
          rw [List.flatMap_cons, List.append_assoc] at h
          exact absurd (congrArg List.head? h) (head?_escapeByte _ _)
      | cons c y =>
          rw [List.flatMap_cons, List.flatMap_cons, List.append_assoc, List.append_assoc] at h
          obtain ⟨rfl, htail⟩ := escapeByte_append_inj h
          obtain ⟨rfl, rfl⟩ := ih htail
          exact ⟨rfl, rfl⟩

/-! Numbers end where the digits end. -/

/-- Nothing follows that could go on with a number. -/
def Delimited (rest : Bytes) : Prop :=
  ∀ b ∈ rest.head?, isIdent b = false

theorem delimited_cons {b : UInt8} (hb : isIdent b = false) (rest : Bytes) :
    Delimited (b :: rest) := by
  intro c hc
  cases hc
  exact hb

theorem digit_of_mem_utf8_toString {n : Nat} {b : UInt8} (hb : b ∈ utf8 (toString n)) :
    0x30 ≤ b ∧ b ≤ 0x39 := by
  obtain ⟨c, hc, hb⟩ := List.mem_flatMap.mp hb
  rw [Nat.toString_eq_repr, Nat.toList_repr] at hc
  have hdigit := Nat.isDigit_of_mem_toDigits (by decide) (by decide) hc
  rw [Char.isDigit, Bool.and_eq_true, decide_eq_true_eq, decide_eq_true_eq] at hdigit
  have hrange : 48 ≤ c.val.toNat ∧ c.val.toNat ≤ 57 :=
    ⟨UInt32.le_iff_toNat_le.mp hdigit.1, UInt32.le_iff_toNat_le.mp hdigit.2⟩
  have hcode : b.toNat = c.val.toNat := by
    rw [String.utf8EncodeChar, if_pos (by omega), List.mem_singleton] at hb
    rw [hb, UInt8.toNat_ofNat']
    omega
  rw [UInt8.le_iff_toNat_le, UInt8.le_iff_toNat_le, hcode]
  exact hrange

theorem isIdent_of_digit {b : UInt8} (hb : 0x30 ≤ b ∧ b ≤ 0x39) : isIdent b = true := by
  simp [isIdent, hb]

theorem toString_inj {m n : Nat} : toString m = toString n ↔ m = n := by
  constructor
  · intro h
    have hdigits := congrArg String.toList h
    rw [Nat.toString_eq_repr, Nat.toString_eq_repr, Nat.toList_repr, Nat.toList_repr] at hdigits
    rw [← @Nat.ofDigitChars_ten_toDigits m, hdigits, Nat.ofDigitChars_ten_toDigits]
  · rintro rfl
    rfl

theorem number_append_inj {m n : Nat} {s t : Bytes} (hs : Delimited s) (ht : Delimited t)
    (h : utf8 (toString m) ++ s = utf8 (toString n) ++ t) : m = n ∧ s = t := by
  have htake : ∀ (k : Nat) (rest : Bytes), Delimited rest →
      (utf8 (toString k) ++ rest).takeWhile isIdent = utf8 (toString k) := by
    intro k rest hrest
    rw [List.takeWhile_append_of_pos fun b hb => isIdent_of_digit (digit_of_mem_utf8_toString hb)]
    cases rest with
    | nil => simp
    | cons b rest =>
        rw [List.takeWhile_cons_of_neg (by simp [hrest b rfl]), List.append_nil]
  have hdigits := htake m s hs
  rw [h, htake n t ht] at hdigits
  rw [hdigits] at h
  exact ⟨toString_inj.mp (utf8_inj.mp hdigits.symm), List.append_cancel_left h⟩

/-! The first byte of a value tells what kind of value it is. -/

inductive Kind
  | null
  | boolean
  | number
  | text
  | array
  | object
deriving DecidableEq

def kind : Json → Kind
  | .null => .null
  | .boolean _ => .boolean
  | .number _ => .number
  | .text _ => .text
  | .array _ => .array
  | .object _ => .object

def Kind.ofByte (b : UInt8) : Kind :=
  if b == doubleQuote then .text
  else if b == openBracket then .array
  else if b == openBrace then .object
  else if b == 0x6E then .null
  else if b ≤ 0x39 then .number
  else .boolean

theorem kind_of_render (depth : Nat) (value : Json) (rest : Bytes) :
    (value.render depth ++ rest).head?.map Kind.ofByte = some value.kind := by
  cases value with
  | null => rfl
  | boolean value => cases value <;> rfl
  | number value =>
      cases hdigits : utf8 (toString value) with
      | nil => exact absurd hdigits (utf8_ne_nil (by simp))
      | cons b digits =>
          have hb := digit_of_mem_utf8_toString (hdigits ▸ List.mem_cons_self)
          have hne : ∀ c : UInt8, ¬ (0x30 ≤ c ∧ c ≤ 0x39) → (b == c) = false := by
            rintro c hc
            rw [beq_eq_false_iff_ne]
            rintro rfl
            exact hc hb
          rw [render, hdigits]
          simp [Kind.ofByte, hne, hb.2, kind, doubleQuote, openBracket, openBrace]
  | text value => rfl
  | array elements => cases elements <;> rfl
  | object fields =>
      cases fields with
      | nil => rfl
      | cons field fields => rfl

theorem kind_eq_of_render {depth : Nat} {a c : Json} {s t : Bytes}
    (h : a.render depth ++ s = c.render depth ++ t) : a.kind = c.kind := by
  have hkind := kind_of_render depth a s
  rw [h, kind_of_render] at hkind
  exact (Option.some.inj hkind).symm

/-! Values inside of brackets are followed by a comma or by a line feed. -/

theorem delimited_of_head? {rest : Bytes} (hrest : rest.head? = some lineFeed) :
    Delimited rest := by
  intro b hb
  rw [hrest] at hb
  cases hb
  rfl

theorem delimited_renderElements (depth : Nat) (elements : List Json) {rest : Bytes}
    (hrest : rest.head? = some lineFeed) :
    Delimited (renderElements depth elements ++ rest) := by
  cases elements with
  | nil => exact delimited_of_head? hrest
  | cons element elements => exact delimited_cons rfl _

theorem delimited_renderFields (depth : Nat) (fields : List (String × Json)) {rest : Bytes}
    (hrest : rest.head? = some lineFeed) :
    Delimited (renderFields depth fields ++ rest) := by
  cases fields with
  | nil => exact delimited_of_head? hrest
  | cons field fields => exact delimited_cons rfl _

/-- The text of a value is not that of another, nor the start of it. -/
def Readable (value : Json) : Prop :=
  ∀ {depth : Nat} {other : Json} {s t : Bytes}, Delimited s → Delimited t →
    value.render depth ++ s = other.render depth ++ t → value = other ∧ s = t

theorem renderElements_append_inj {depth : Nat} {xs ys : List Json} {s t : Bytes}
    (hxs : ∀ x ∈ xs, x.Readable) (hs : s.head? = some lineFeed) (ht : t.head? = some lineFeed)
    (h : renderElements depth xs ++ s = renderElements depth ys ++ t) : xs = ys ∧ s = t := by
  induction xs generalizing ys with
  | nil =>
      cases ys with
      | nil => exact ⟨rfl, h⟩
      | cons y ys =>
          rw [renderElements, List.nil_append] at h
          rw [h] at hs
          cases hs
  | cons x xs ih =>
      cases ys with
      | nil =>
          rw [renderElements.eq_1, List.nil_append] at h
          rw [← h] at ht
          cases ht
      | cons y ys =>
          simp only [renderElements, List.cons_append, List.cons.injEq, List.append_assoc,
            List.append_cancel_left_eq, true_and] at h
          obtain ⟨rfl, htail⟩ := hxs x List.mem_cons_self (delimited_renderElements _ _ hs)
            (delimited_renderElements _ _ ht) h
          obtain ⟨rfl, rfl⟩ := ih (fun x hx => hxs x (List.mem_cons_of_mem _ hx)) htail
          exact ⟨rfl, rfl⟩

theorem renderFields_append_inj {depth : Nat} {xs ys : List (String × Json)} {s t : Bytes}
    (hxs : ∀ x ∈ xs, x.2.Readable) (hs : s.head? = some lineFeed)
    (ht : t.head? = some lineFeed)
    (h : renderFields depth xs ++ s = renderFields depth ys ++ t) : xs = ys ∧ s = t := by
  induction xs generalizing ys with
  | nil =>
      cases ys with
      | nil => exact ⟨rfl, h⟩
      | cons y ys =>
          rw [renderFields, List.nil_append] at h
          rw [h] at hs
          cases hs
  | cons x xs ih =>
      cases ys with
      | nil =>
          rw [renderFields.eq_1, List.nil_append] at h
          rw [← h] at ht
          cases ht
      | cons y ys =>
          simp only [renderFields, List.cons_append, List.cons.injEq, List.append_assoc,
            List.append_cancel_left_eq, true_and] at h
          obtain ⟨hkey, hrest⟩ := quote_append_inj h
          obtain ⟨hvalue, htail⟩ := hxs x List.mem_cons_self (delimited_renderFields _ _ hs)
            (delimited_renderFields _ _ ht) (List.append_cancel_left hrest)
          obtain ⟨rfl, rfl⟩ := ih (fun x hx => hxs x (List.mem_cons_of_mem _ hx)) htail
          exact ⟨by rw [Prod.ext (utf8_inj.mp hkey) hvalue], rfl⟩

theorem readable_null : Readable .null := by
  intro depth other s t _ _ h
  cases other with
  | null => exact ⟨rfl, List.append_cancel_left h⟩
  | _ => cases kind_eq_of_render h

theorem readable_boolean (value : Bool) : Readable (.boolean value) := by
  intro depth other s t _ _ h
  cases other with
  | boolean other =>
      cases value <;> cases other
      case false.false | true.true => exact ⟨rfl, List.append_cancel_left h⟩
      case false.true | true.false => cases h
  | _ => cases kind_eq_of_render h

theorem readable_number (value : Nat) : Readable (.number value) := by
  intro depth other s t hs ht h
  cases other with
  | number other =>
      obtain ⟨rfl, rfl⟩ := number_append_inj hs ht h
      exact ⟨rfl, rfl⟩
  | _ => cases kind_eq_of_render h

theorem readable_text (value : Bytes) : Readable (.text value) := by
  intro depth other s t _ _ h
  cases other with
  | text other =>
      obtain ⟨rfl, rfl⟩ := quote_append_inj h
      exact ⟨rfl, rfl⟩
  | _ => cases kind_eq_of_render h

theorem readable_array {elements : List Json} (helements : ∀ x ∈ elements, x.Readable) :
    Readable (.array elements) := by
  intro depth other s t _ _ h
  cases other with
  | array others =>
      cases elements with
      | nil =>
          cases others with
          | nil => exact ⟨rfl, List.append_cancel_left h⟩
          | cons y ys => cases h
      | cons x xs =>
          cases others with
          | nil => cases h
          | cons y ys =>
              simp only [render, List.cons_append, List.cons.injEq, List.append_assoc,
                List.append_cancel_left_eq, true_and, List.nil_append] at h
              obtain ⟨rfl, htail⟩ := helements x List.mem_cons_self
                (delimited_renderElements _ _ rfl) (delimited_renderElements _ _ rfl) h
              obtain ⟨rfl, hclose⟩ := renderElements_append_inj
                (fun x hx => helements x (List.mem_cons_of_mem _ hx)) rfl rfl htail
              simp only [List.append_cancel_left_eq, List.cons.injEq, true_and] at hclose
              exact ⟨rfl, hclose⟩
  | _ => cases kind_eq_of_render h

theorem readable_object {fields : List (String × Json)} (hfields : ∀ x ∈ fields, x.2.Readable) :
    Readable (.object fields) := by
  intro depth other s t _ _ h
  cases other with
  | object others =>
      cases fields with
      | nil =>
          cases others with
          | nil => exact ⟨rfl, List.append_cancel_left h⟩
          | cons y ys => cases h
      | cons x xs =>
          cases others with
          | nil => cases h
          | cons y ys =>
              simp only [render, List.cons_append, List.cons.injEq, List.append_assoc,
                List.append_cancel_left_eq, true_and, List.nil_append] at h
              obtain ⟨hkey, hrest⟩ := quote_append_inj h
              obtain ⟨hvalue, htail⟩ := hfields x List.mem_cons_self
                (delimited_renderFields _ _ rfl) (delimited_renderFields _ _ rfl)
                (List.append_cancel_left hrest)
              obtain ⟨rfl, hclose⟩ := renderFields_append_inj
                (fun x hx => hfields x (List.mem_cons_of_mem _ hx)) rfl rfl htail
              simp only [List.append_cancel_left_eq, List.cons.injEq, true_and] at hclose
              exact ⟨by rw [Prod.ext (utf8_inj.mp hkey) hvalue], hclose⟩
  | _ => cases kind_eq_of_render h

theorem readable : ∀ value : Json, value.Readable
  | .null => readable_null
  | .boolean value => readable_boolean value
  | .number value => readable_number value
  | .text value => readable_text value
  | .array elements => readable_array fun x hx =>
      have := List.sizeOf_lt_of_mem hx
      readable x
  | .object fields => readable_object fun x hx =>
      have := List.sizeOf_lt_of_mem hx
      readable x.2
termination_by value => sizeOf value
decreasing_by
  · simp only [array.sizeOf_spec]
    omega
  · obtain ⟨key, value⟩ := x
    simp only [object.sizeOf_spec, Prod.mk.sizeOf_spec] at *
    omega

theorem render_inj {depth : Nat} {a c : Json} (h : a.render depth = c.render depth) : a = c := by
  have hend : Delimited [] := by
    intro b hb
    cases hb
  exact (readable a hend hend (congrArg (· ++ []) h)).1

end Json

/-! The plan is the one value that its text stands for. -/

theorem Json.ofString_inj {s t : String} : Json.ofString s = Json.ofString t ↔ s = t := by
  rw [Json.ofString, Json.ofString, Json.text.injEq, utf8_inj]

theorem ComponentNames.toJson_inj {names other : ComponentNames} :
    names.toJson = other.toJson ↔ names = other := by
  rcases names with ⟨⟨identifier, hidentifier⟩, symbolicName, fileBaseName, selector, tag⟩
  rcases other with ⟨⟨identifier', hidentifier'⟩, symbolicName', fileBaseName', selector', tag'⟩
  simp [toJson, Json.ofString_inj]

theorem SynthesizedFile.toJson_inj {file other : SynthesizedFile} :
    file.toJson = other.toJson ↔ file = other := by
  rcases file with ⟨path, content⟩
  rcases other with ⟨path', content'⟩
  simp [toJson, Json.ofString_inj]

theorem TextEdit.toJson_inj {edit other : TextEdit} :
    edit.toJson = other.toJson ↔ edit = other := by
  rcases edit with ⟨⟨start, stop⟩, replacement⟩
  rcases other with ⟨⟨start', stop'⟩, replacement'⟩
  simp [toJson]

theorem Block.toJson_inj {block other : Block} :
    block.toJson = other.toJson ↔ block = other := by
  rcases block with ⟨start, stop, openBrace, closeBrace⟩
  rcases other with ⟨start', stop', openBrace', closeBrace'⟩
  simp [toJson]

theorem ListEdit.toJson_inj {edit other : ListEdit} :
    edit.toJson = other.toJson ↔ edit = other := by
  cases edit <;> cases other <;> simp [toJson, Json.ofString]

theorem RewireOutcome.toJson_inj {outcome other : RewireOutcome} :
    outcome.toJson = other.toJson ↔ outcome = other := by
  cases outcome <;> cases other <;> simp [toJson, Block.toJson_inj, ListEdit.toJson_inj]

theorem RewirePlan.toJson_inj {plan other : RewirePlan} :
    plan.toJson = other.toJson ↔ plan = other := by
  rcases plan with ⟨outcome, keep⟩
  rcases other with ⟨outcome', keep'⟩
  simp [toJson, RewireOutcome.toJson_inj]

theorem RewirePlan.optionalJson_inj {plan other : Option RewirePlan} :
    (plan.map toJson).getD .null = (other.map toJson).getD .null ↔ plan = other := by
  cases plan <;> cases other
  case none.none => simp
  case none.some | some.none => simp [toJson]
  case some.some plan other => simp [toJson_inj]

theorem ExtractionPlan.toJson_inj {plan other : ExtractionPlan} :
    plan.toJson = other.toJson ↔ plan = other := by
  rcases plan with ⟨names, modulePath, file, edit, rewire⟩
  rcases other with ⟨names', modulePath', file', edit', rewire'⟩
  simp [toJson, ComponentNames.toJson_inj, Json.ofString_inj, SynthesizedFile.toJson_inj,
    TextEdit.toJson_inj, RewirePlan.optionalJson_inj]

/-- Two plans that read the same are the same. -/
theorem ExtractionPlan.eq_of_render {plan other : ExtractionPlan}
    (h : plan.toJson.render 0 = other.toJson.render 0) : plan = other :=
  toJson_inj.mp (Json.render_inj h)

end Extraction
