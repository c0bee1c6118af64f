import SupportFile.CustomJs.Lemmas.FormToParam
import SupportFile.Json.Lemmas.Shortest

namespace CustomJs

def keptFields (formSerializeDataArray : List Field) : List Field :=
  formSerializeDataArray.filter (fun field => field.value.trim != [])

def pair (field : Field) : JsString :=
  JsString.ofChars ['"'] ++ field.name ++ JsString.ofChars ['"', ':'] ++ JsString.ofChars ['"']
    ++ field.value ++ JsString.ofChars ['"']

theorem customFormToJson.go_eq (formSerializeDataArray : List Field) (pairs : JsString)
    : customFormToJson.go formSerializeDataArray pairs
        =
      pairs ++ SepList.joined 0x2c ((keptFields formSerializeDataArray).map pair) := by
  have hcomma : JsString.ofChars [','] = [0x2c] := by
    decide
  induction formSerializeDataArray generalizing pairs with
  | nil => simp [customFormToJson.go, keptFields, SepList.joined]
  | cons field formSerializeDataArray ih =>
    unfold customFormToJson.go
    dsimp
    split
    . next hvalue =>
      unfold keptFields at *
      rw [ih, hcomma, List.filter_cons, if_pos hvalue]
      simp [SepList.joined, pair]
    . next hvalue =>
      unfold keptFields at *
      rw [ih, List.filter_cons, if_neg hvalue]

theorem ofFields_eq (formSerializeDataArray : List Field)
    : customFormToJson.ofFields formSerializeDataArray
        =
      JsString.ofChars ['{'] ++ [0x2c].intercalate ((keptFields formSerializeDataArray).map pair)
        ++ JsString.ofChars ['}'] := by
  unfold customFormToJson.ofFields JsString.tail
  dsimp
  rw [customFormToJson.go_eq, List.nil_append, SepList.drop_joined]

/-- The text is made of the kept fields, and the query has no others. -/
def SelectsSameFields (form : List Control) : Prop :=
  customFormToJson form
      = JsString.ofChars ['{'] ++ [0x2c].intercalate ((keptFields (serializeArray form)).map pair)
        ++ JsString.ofChars ['}']
    ∧ (customFormToParam form).map decodeQuery = some (keptFields (serializeArray form))

instance (form : List Control) : Decidable (SelectsSameFields form) :=
  inferInstanceAs (Decidable (_ ∧ _))

def Field.Blank (field : Field) : Prop :=
  field.value ≠ [] ∧ ∀ u ∈ field.value, JsString.isWhiteSpace u = true

theorem filter_eq_keptFields_iff (fields : List Field)
    : fields.filter (fun field => field.value != []) = keptFields fields
        ↔
      ∀ field ∈ fields, ¬field.Blank := by
  unfold keptFields Field.Blank
  simp only [← JsString.trim_eq_nil_iff]
  constructor
  . rintro h field hfield ⟨hne, htrim⟩
    have hmem : field ∈ fields.filter (fun field => field.value != []) := by
      simp [hfield, hne]
    rw [h, List.mem_filter] at hmem
    simp [htrim] at hmem
  . intro h
    apply List.filter_congr
    intro field hfield
    have h := h field hfield
    have htrim : field.value = [] → field.value.trim = [] := by
      intro hnil
      rw [hnil]
      rfl
    rw [Bool.eq_iff_iff, bne_iff_ne, bne_iff_ne]
    tauto

theorem selectsSameFields_iff (form : List Control)
    : SelectsSameFields form
        ↔
      serializeArray form ≠ [] ∧ (∀ field ∈ serializeArray form, ¬field.Blank)
        ∧ ∀ field ∈ serializeArray form, field.WellFormed := by
  unfold SelectsSameFields
  constructor
  . rintro ⟨_, h⟩
    have hne : serializeArray form ≠ [] := by
      intro hnil
      rw [customFormToParam_of_nil hnil, hnil] at h
      simp [keptFields] at h
    have hwf : ∀ field ∈ serializeArray form, field.WellFormed := by
      have hquery := h
      rw [Option.map_eq_some_iff] at hquery
      rcases hquery with ⟨query, hquery, _⟩
      apply wellFormed_of_customFormToParam hquery
    rw [customFormToParam_of_ne_nil hne hwf, Option.some.injEq, filter_eq_keptFields_iff] at h
    exact ⟨hne, h, hwf⟩
  . rintro ⟨hne, hblank, hwf⟩
    constructor
    . exact ofFields_eq _
    . rw [customFormToParam_of_ne_nil hne hwf, (filter_eq_keptFields_iff _).mpr hblank]

theorem not_selectsSameFields_blank
    : ¬SelectsSameFields [{ name := JsString.ofChars ['a'], val := .string (JsString.ofChars [' ']) }]
    := by
  decide

section SafeSet

def Field.ofChars (field : List Char × List Char) : Field where
  name := JsString.ofChars field.1
  value := JsString.ofChars field.2

def keptChars (fields : List (List Char × List Char)) : List (List Char × List Char) :=
  fields.filter (fun field => (JsString.ofChars field.2).trim != [])

theorem keptFields_map_ofChars (fields : List (List Char × List Char))
    : keptFields (fields.map Field.ofChars) = (keptChars fields).map Field.ofChars := by
  unfold keptFields keptChars
  rw [List.filter_map]
  rfl

theorem ofChars_objText (ms : List (List Char × List Char))
    : JsString.ofChars (Json.objText ms)
        =
      JsString.ofChars ['{'] ++ [0x2c].intercalate ((ms.map Field.ofChars).map pair)
        ++ JsString.ofChars ['}'] := by
  unfold Json.objText
  rw [JsString.ofChars_append, JsString.ofChars_append]
  have hinter : JsString.ofChars ([','].intercalate (ms.map Json.memberText))
      = [0x2c].intercalate ((ms.map Field.ofChars).map pair) := by
    have hcomma : Json.utf16 ',' = [0x2c] := by
      decide
    have hmember (m : List Char × List Char)
        : JsString.ofChars (Json.memberText m) = pair (Field.ofChars m) := by
      simp [Json.memberText, pair, Field.ofChars]
    induction ms with
    | nil => rfl
    | cons m ms ih =>
      cases ms with
      | nil => simp [hmember]
      | cons m' ms =>
        simp only [List.map_cons, List.intercalate_cons_cons, JsString.ofChars_append,
          JsString.ofChars_cons, JsString.ofChars_nil, hmember, hcomma] at ih ⊢
        rw [ih, List.append_nil]
  rw [hinter]

theorem ofFields_map_ofChars (fields : List (List Char × List Char))
    : customFormToJson.ofFields (fields.map Field.ofChars)
        =
      JsString.ofChars (Json.objText (keptChars fields)) := by
  rw [ofFields_eq, keptFields_map_ofChars, ofChars_objText]

def IsJsonText (s : JsString) (v : Json) : Prop :=
  ∃ text, JsString.ofChars text = s ∧ Json.Text text v

def toObject (fields : List (List Char × List Char)) : Json :=
  .obj (fields.map (fun (name, value) => (JsString.ofChars name, .str (JsString.ofChars value))))

def needsEscape (c : Char) : Prop :=
  c = '"' ∨ c = '\\' ∨ c.toNat < 0x20

theorem isUnescaped_iff {c : Char} : Json.isUnescaped c = true ↔ ¬needsEscape c := by
  unfold Json.isUnescaped needsEscape
  simp only [Bool.and_eq_true, decide_eq_true_eq, bne_iff_ne]
  have hlt : 0x20 ≤ c.toNat ↔ ¬c.toNat < 0x20 := Nat.not_lt.symm
  rw [hlt]
  tauto

theorem isJsonText_ofFields_iff_unescaped (fields : List (List Char × List Char))
    : IsJsonText (customFormToJson.ofFields (fields.map Field.ofChars)) (toObject (keptChars fields))
        ↔
      ∀ field ∈ keptChars fields, Json.Unescaped field := by
  have hobject : toObject (keptChars fields)
      = .obj (Json.strMembers (Json.units (keptChars fields))) := by
    simp [toObject, Json.strMembers, Json.units]
  apply Iff.trans _ (Json.text_objText_iff (keptChars fields))
  rw [ofFields_map_ofChars, hobject]
  constructor
  . rintro ⟨text, heq, htext⟩
    rw [JsString.ofChars_injective heq] at htext
    assumption
  . intro htext
    exact ⟨_, rfl, htext⟩

theorem ofFields_isJsonText_iff (fields : List (List Char × List Char))
    : IsJsonText (customFormToJson.ofFields (fields.map Field.ofChars)) (toObject (keptChars fields))
        ↔
      ∀ field ∈ keptChars fields,
        (∀ c ∈ field.1, ¬needsEscape c) ∧ ∀ c ∈ field.2, ¬needsEscape c := by
  simp only [← isUnescaped_iff]
  exact isJsonText_ofFields_iff_unescaped fields

end SafeSet

end CustomJs
