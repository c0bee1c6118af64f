import SupportFile.Uri.Basic

/-!
This module contains the two form encoders of `custom.js` and the part of jQuery that collects the
fields of a form for them.
-/

namespace CustomJs

inductive NodeName where
  | input
  | select
  | textarea
  | keygen
  | other
  deriving DecidableEq, Repr

inductive ControlType where
  | submit
  | button
  | image
  | reset
  | file
  | checkbox
  | radio
  | other
  deriving DecidableEq, Repr

-- The value of a multiple selection is a list.
inductive Val where
  | null
  | string (val : JsString)
  | array (vals : List JsString)
  deriving DecidableEq, Repr

structure Control where
  name : JsString
  disabled : Bool := false
  nodeName : NodeName := .input
  type : ControlType := .other
  checked : Bool := false
  val : Val
  deriving DecidableEq, Repr

structure Field where
  name : JsString
  value : JsString
  deriving DecidableEq, Repr

-- `val.replace(/\r?\n/g, "\r\n")`
def replaceCRLF (val : JsString) : JsString :=
  match val with
  | [] => []
  | [u] => if u == 0x0a then [0x0d, 0x0a] else [u]
  | u :: v :: val =>
    if u == 0x0d && v == 0x0a then
      0x0d :: 0x0a :: replaceCRLF val
    else if u == 0x0a then
      0x0d :: 0x0a :: replaceCRLF (v :: val)
    else
      u :: replaceCRLF (v :: val)

def Control.isSuccessful (elem : Control) : Bool :=
  elem.name != [] && !elem.disabled
    -- rsubmittable
    && elem.nodeName != .other
    -- rsubmitterTypes
    && !(elem.type == .submit || elem.type == .button || elem.type == .image || elem.type == .reset
      || elem.type == .file)
    && (elem.checked || !(elem.type == .checkbox || elem.type == .radio))

def Control.fields (elem : Control) : List Field :=
  match elem.val with
  | .null => []
  | .string val => [{ name := elem.name, value := replaceCRLF val }]
  | .array vals => vals.map (fun val => { name := elem.name, value := replaceCRLF val })

def serializeArray (form : List Control) : List Field :=
  (form.filter Control.isSuccessful).flatMap Control.fields

def param (a : List Field) : Option JsString := do
  let s ← a.mapM add
  return (JsString.ofChars ['&']).intercalate s
where
  add (field : Field) : Option JsString := do
    let key ← Uri.encodeURIComponent field.name
    let value ← Uri.encodeURIComponent field.value
    return key ++ JsString.ofChars ['='] ++ value

def serialize (form : List Control) : Option JsString :=
  param (serializeArray form)

def undefined : JsString :=
  JsString.ofChars ['u', 'n', 'd', 'e', 'f', 'i', 'n', 'e', 'd']

def customFormToParam (form : List Control) : Option JsString := do
  let initData ← serialize form
  return keepValues initData
where
  keepValues (initData : JsString) : JsString :=
    let array := initData.split 0x26
    (go array []).tail
  go (array : List JsString) (param : JsString) : JsString :=
    match array with
    | [] => param
    | piece :: array =>
      let name := (piece.split 0x3d)[0]?
      let value := (piece.split 0x3d)[1]?
      -- There is no second part if there is no `=`, and `undefined != ""` holds.
      if value != some [] then
        go array (param ++ JsString.ofChars ['&'] ++ name.getD undefined
          ++ JsString.ofChars ['='] ++ value.getD undefined)
      else
        go array param

def customFormToJson (form : List Control) : JsString :=
  ofFields (serializeArray form)
where
  ofFields (formSerializeDataArray : List Field) : JsString :=
    let pairs := go formSerializeDataArray []
    JsString.ofChars ['{'] ++ pairs.tail ++ JsString.ofChars ['}']
  go (formSerializeDataArray : List Field) (pairs : JsString) : JsString :=
    match formSerializeDataArray with
    | [] => pairs
    | { name, value } :: formSerializeDataArray =>
      if value.trim != [] then
        let pair := JsString.ofChars ['"'] ++ name ++ JsString.ofChars ['"', ':']
          ++ JsString.ofChars ['"'] ++ value ++ JsString.ofChars ['"']
        go formSerializeDataArray (pairs ++ JsString.ofChars [','] ++ pair)
      else
        go formSerializeDataArray pairs

end CustomJs
