import SupportFile.CustomJs.Impl.Form
import SupportFile.SepList.Basic
import SupportFile.Uri.Lemmas

namespace CustomJs

def decodePair (piece : JsString) : Field where
  name := Uri.percentDecode (piece.takeWhile (· != 0x3d))
  value := Uri.percentDecode ((piece.dropWhile (· != 0x3d)).drop 1)

def decodeQuery (query : JsString) : List Field :=
  if query = [] then
    []
  else
    (query.split 0x26).map decodePair

def Field.WellFormed (field : Field) : Prop :=
  field.name.WellFormed ∧ field.value.WellFormed

theorem ofChars_ampersand : JsString.ofChars ['&'] = [0x26] := by
  decide

theorem ofChars_equals : JsString.ofChars ['='] = [0x3d] := by
  decide

def Encodes (field : Field) (piece : JsString) : Prop :=
  param.add field = some piece

theorem encodes_iff {field : Field} {piece : JsString}
    : Encodes field piece
        ↔
      ∃ key value, Uri.encodeURIComponent field.name = some key
        ∧ Uri.encodeURIComponent field.value = some value ∧ piece = key ++ [0x3d] ++ value := by
  unfold Encodes param.add
  simp only [ofChars_equals, Option.bind_eq_bind, Option.bind_eq_some_iff, Option.pure_def,
    Option.some.injEq]
  constructor
  . rintro ⟨key, hkey, value, hvalue, rfl⟩
    exact ⟨key, value, hkey, hvalue, rfl⟩
  . rintro ⟨key, value, hkey, hvalue, rfl⟩
    exact ⟨key, hkey, value, hvalue, rfl⟩

theorem exists_encodes {field : Field} : (∃ piece, Encodes field piece) ↔ field.WellFormed := by
  unfold Field.WellFormed
  simp only [encodes_iff]
  rw [← Uri.exists_encodeURIComponent, ← Uri.exists_encodeURIComponent]
  constructor
  . rintro ⟨_, key, value, hkey, hvalue, _⟩
    exact ⟨⟨key, hkey⟩, ⟨value, hvalue⟩⟩
  . rintro ⟨⟨key, hkey⟩, ⟨value, hvalue⟩⟩
    exact ⟨_, key, value, hkey, hvalue, rfl⟩

namespace Encodes

theorem ne_nil {field : Field} {piece : JsString} (h : Encodes field piece) : piece ≠ [] := by
  rcases encodes_iff.mp h with ⟨name, value, _, _, rfl⟩
  simp

theorem not_mem {field : Field} {piece : JsString} (h : Encodes field piece) : 0x26 ∉ piece := by
  rcases encodes_iff.mp h with ⟨name, value, hname, hvalue, rfl⟩
  have hname := Uri.not_mem_of_encodeURIComponent hname (Or.inl rfl)
  have hvalue := Uri.not_mem_of_encodeURIComponent hvalue (Or.inl rfl)
  simp [hname, hvalue]

theorem decodePair_eq {field : Field} {piece : JsString} (h : Encodes field piece)
    : decodePair piece = field := by
  rcases encodes_iff.mp h with ⟨name, value, hname, hvalue, rfl⟩
  have hmem := Uri.not_mem_of_encodeURIComponent hname (Or.inr rfl)
  have hall : ∀ u ∈ name, (u != 0x3d) = true := by
    rintro u hu
    rw [bne_iff_ne]
    rintro rfl
    apply hmem hu
  unfold decodePair
  rw [List.append_assoc, List.singleton_append, List.takeWhile_append_of_pos hall,
    List.dropWhile_append_of_pos hall]
  simp [Uri.percentDecode_of_encodeURIComponent hname,
    Uri.percentDecode_of_encodeURIComponent hvalue]

theorem split_eq {field : Field} {piece : JsString} (h : Encodes field piece)
    : ∃ name value, piece.split 0x3d = [name, value] ∧ piece = name ++ [0x3d] ++ value
        ∧ (value = [] ↔ field.value = []) := by
  rcases encodes_iff.mp h with ⟨name, value, hname, hvalue, rfl⟩
  refine ⟨name, value, ?_, rfl, Uri.eq_nil_of_encodeURIComponent hvalue⟩
  unfold JsString.split
  rw [List.append_assoc, List.singleton_append, List.splitOn_append_cons_self_of_not_mem
    (Uri.not_mem_of_encodeURIComponent hname (Or.inr rfl)), List.splitOn_eq_singleton
    (Uri.not_mem_of_encodeURIComponent hvalue (Or.inr rfl))]

end Encodes

theorem mapM_add {a : List Field} {pieces : List JsString} (h : a.mapM param.add = some pieces)
    : List.Forall₂ Encodes a pieces := by
  induction a generalizing pieces with
  | nil =>
    cases h
    apply List.Forall₂.nil
  | cons field a ih =>
    simp only [List.mapM_cons, Option.bind_eq_bind, Option.bind_eq_some_iff, Option.pure_def,
      Option.some.injEq] at h
    rcases h with ⟨piece, hpiece, pieces', hpieces, rfl⟩
    exact List.Forall₂.cons hpiece (ih hpieces)

theorem param_spec {a : List Field} {s : JsString} (h : param a = some s)
    : ∃ pieces, List.Forall₂ Encodes a pieces ∧ s = [0x26].intercalate pieces := by
  unfold param at h
  simp only [ofChars_ampersand, Option.bind_eq_bind, Option.bind_eq_some_iff, Option.pure_def,
    Option.some.injEq] at h
  rcases h with ⟨pieces, hpieces, rfl⟩
  exact ⟨pieces, mapM_add hpieces, rfl⟩

theorem exists_param {a : List Field}
    : (∃ s, param a = some s) ↔ ∀ field ∈ a, field.WellFormed := by
  constructor
  . rintro ⟨s, h⟩ field hfield
    rcases param_spec h with ⟨pieces, hpieces, _⟩
    rcases List.forall₂_iff_get.mp hpieces with ⟨hlen, hget⟩
    rcases List.get_of_mem hfield with ⟨i, rfl⟩
    apply exists_encodes.mp
    exact ⟨_, hget i i.isLt (by omega)⟩
  . intro h
    have hmapM : ∃ pieces, a.mapM param.add = some pieces := by
      induction a with
      | nil => exact ⟨[], rfl⟩
      | cons field a ih =>
        rcases exists_encodes.mpr (h field List.mem_cons_self) with ⟨piece, hpiece⟩
        rcases ih (fun field hfield => h field (List.mem_cons_of_mem _ hfield)) with
          ⟨pieces, hpieces⟩
        refine ⟨piece :: pieces, ?_⟩
        unfold Encodes at hpiece
        simp [List.mapM_cons, hpiece, hpieces]
    rcases hmapM with ⟨pieces, hpieces⟩
    unfold param
    rw [hpieces]
    exact ⟨_, rfl⟩

theorem go_spec {a : List Field} {pieces : List JsString} (h : List.Forall₂ Encodes a pieces)
    (param : JsString)
    : ∃ kept, List.Forall₂ Encodes (a.filter (fun field => field.value != [])) kept
        ∧ customFormToParam.go pieces param = param ++ SepList.joined 0x26 kept := by
  induction h generalizing param with
  | nil => exact ⟨[], List.Forall₂.nil, by simp [customFormToParam.go, SepList.joined]⟩
  | @cons field piece a pieces hpiece _ ih =>
    rcases hpiece.split_eq with ⟨name, value, hsplit, heq, hnil⟩
    unfold customFormToParam.go
    rw [hsplit, ofChars_ampersand, ofChars_equals]
    cases hvalue : value with
    | nil =>
      rw [List.filter_cons_of_neg (by simpa using hnil.mp hvalue)]
      apply ih
    | cons u value' =>
      have hne : field.value ≠ [] := by
        intro hfield
        rw [hvalue] at hnil
        simp at hnil
        contradiction
      rw [List.filter_cons_of_pos (by simpa using hne)]
      rcases ih (param ++ [0x26] ++ piece) with ⟨kept, hkept, hgo⟩
      refine ⟨piece :: kept, List.Forall₂.cons hpiece hkept, ?_⟩
      have hpiece' : param ++ [0x26] ++ name ++ [0x3d] ++ (u :: value') = param ++ [0x26] ++ piece := by
        rw [heq, hvalue]
        simp only [List.append_assoc]
      have hjoined : SepList.joined 0x26 (piece :: kept)
          = [0x26] ++ piece ++ SepList.joined 0x26 kept := by
        simp [SepList.joined]
      rw [hjoined, ← List.append_assoc, ← List.append_assoc, ← hgo, ← hpiece']
      simp

theorem not_mem_of_mem {a : List Field} {pieces : List JsString} (h : List.Forall₂ Encodes a pieces)
    : ∀ piece ∈ pieces, 0x26 ∉ piece := by
  induction h with
  | nil => simp
  | cons hpiece _ ih =>
    rw [List.forall_mem_cons]
    exact ⟨hpiece.not_mem, ih⟩

theorem split_intercalate {a : List Field} {pieces : List JsString} (hne : a ≠ [])
    (h : List.Forall₂ Encodes a pieces)
    : JsString.split ([0x26].intercalate pieces) 0x26 = pieces := by
  unfold JsString.split
  apply List.splitOn_intercalate
  . apply not_mem_of_mem h
  . rintro rfl
    apply hne
    cases h
    rfl

theorem intercalate_ne_nil {a : List Field} {pieces : List JsString} (hne : a ≠ [])
    (h : List.Forall₂ Encodes a pieces)
    : [0x26].intercalate pieces ≠ [] := by
  cases h with
  | nil => contradiction
  | @cons field piece a pieces hpiece _ =>
    have hlen := SepList.length_intercalate (0x26 : JChar) (List.cons_ne_nil piece pieces)
    have hpos := List.length_pos_iff.mpr hpiece.ne_nil
    rw [SepList.weight_cons] at hlen
    intro hnil
    rw [hnil, List.length_nil] at hlen
    omega

theorem map_decodePair {a : List Field} {pieces : List JsString} (h : List.Forall₂ Encodes a pieces)
    : pieces.map decodePair = a := by
  induction h with
  | nil => rfl
  | cons hpiece _ ih => rw [List.map_cons, hpiece.decodePair_eq, ih]

theorem decodeQuery_intercalate {a : List Field} {pieces : List JsString}
    (h : List.Forall₂ Encodes a pieces)
    : decodeQuery ([0x26].intercalate pieces) = a := by
  cases a with
  | nil =>
    cases h
    rfl
  | cons field a =>
    have hne := List.cons_ne_nil field a
    unfold decodeQuery
    rw [if_neg (intercalate_ne_nil hne h), split_intercalate hne h, map_decodePair h]

theorem keepValues_spec {a : List Field} (hne : a ≠ []) {s : JsString} (h : param a = some s)
    : decodeQuery (customFormToParam.keepValues s) = a.filter (fun field => field.value != []) := by
  rcases param_spec h with ⟨pieces, hpieces, rfl⟩
  rcases go_spec hpieces [] with ⟨kept, hkept, hgo⟩
  unfold customFormToParam.keepValues JsString.tail
  dsimp
  rw [split_intercalate hne hpieces, hgo, List.nil_append, SepList.drop_joined]
  apply decodeQuery_intercalate hkept

theorem customFormToParam_of_nil {form : List Control} (h : serializeArray form = [])
    : (customFormToParam form).map decodeQuery = some [{ name := [], value := undefined }] := by
  unfold customFormToParam serialize
  rw [h]
  decide

theorem customFormToParam_of_ne_nil {form : List Control} (hne : serializeArray form ≠ [])
    (hwf : ∀ field ∈ serializeArray form, field.WellFormed)
    : (customFormToParam form).map decodeQuery
        =
      some ((serializeArray form).filter (fun field => field.value != [])) := by
  rcases exists_param.mpr hwf with ⟨s, hs⟩
  unfold customFormToParam serialize
  rw [hs, ← keepValues_spec hne hs]
  rfl

theorem wellFormed_of_customFormToParam {form : List Control} {query : JsString}
    (h : customFormToParam form = some query)
    : ∀ field ∈ serializeArray form, field.WellFormed := by
  unfold customFormToParam serialize at h
  simp only [Option.bind_eq_bind, Option.bind_eq_some_iff] at h
  rcases h with ⟨s, hs, _⟩
  apply exists_param.mp ⟨s, hs⟩

def RoundTrips (form : List Control) : Prop :=
  (customFormToParam form).map decodeQuery
    =
  some ((serializeArray form).filter (fun field => field.value != []))

instance (form : List Control) : Decidable (RoundTrips form) :=
  inferInstanceAs (Decidable (_ = _))

theorem roundTrips_iff (form : List Control)
    : RoundTrips form
        ↔
      serializeArray form ≠ [] ∧ ∀ field ∈ serializeArray form, field.WellFormed := by
  unfold RoundTrips
  constructor
  . intro h
    constructor
    . intro hnil
      rw [customFormToParam_of_nil hnil, hnil] at h
      simp at h
    . rw [Option.map_eq_some_iff] at h
      rcases h with ⟨query, hquery, _⟩
      apply wellFormed_of_customFormToParam hquery
  . rintro ⟨hne, hwf⟩
    apply customFormToParam_of_ne_nil hne hwf

theorem not_roundTrips_empty : ¬RoundTrips [] := by
  decide

end CustomJs
