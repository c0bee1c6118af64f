import SupportFile.CustomJs.Impl.Form
import SupportFile.JQuery.Impl.Value

/-!
This module contains the plugin that turns the fields of a form into nested objects and arrays. The
names of the fields say where the values go.
-/

namespace SerializeJson

variable {Num : Type}

/-- The value of an option or of a field. -/
inductive Scalar where
  | string (s : JsString)
  | boolean (b : Bool)
  deriving DecidableEq, Repr

/-- The options that are in force. -/
structure Opts (Num : Type) where
  parseNumbers : Bool
  parseBooleans : Bool
  parseNulls : Bool
  parseWithFunction : Option (Value Num → Value Num)
  checkboxUncheckedValue : Option Scalar
  useIntKeysAsArrayIndex : Bool

/-- What the plugin needs of the numbers of JavaScript. -/
structure Numbers (Num : Type) where
  ofString : JsString → Num
  parseFloat : JsString → Num
  sub : Num → Num → Num
  nonneg : Num → Bool

def Numbers.isNumeric (numbers : Numbers Num) (obj : JsString) : Bool :=
  numbers.nonneg (numbers.sub (numbers.ofString obj) (numbers.parseFloat obj))

-- The names that the prototypes of objects and arrays define in every engine.
def prototypeNames : List JsString :=
  ["constructor", "hasOwnProperty", "isPrototypeOf", "propertyIsEnumerable", "toLocaleString",
    "toString", "valueOf", "__proto__", "__defineGetter__", "__defineSetter__", "__lookupGetter__",
    "__lookupSetter__", "length", "concat", "every", "filter", "forEach", "indexOf", "join",
    "lastIndexOf", "map", "pop", "push", "reduce", "reduceRight", "reverse", "shift", "slice", "some",
    "sort", "splice", "unshift"].map (fun name => JsString.ofChars name.toList)

/-- The names that objects or arrays have without having been given them. -/
structure Realm where
  inherited : JsString → Bool
  standard : ∀ name ∈ prototypeNames, inherited name = true
  not_nil : inherited [] = false

/-- Names that are inherited are not followed further. -/
inductive Failure where
  | exception
  | inherited
  deriving DecidableEq, Repr

structure Input where
  name : JsString
  value : Scalar
  deriving DecidableEq, Repr

/-- The name of an element is `''` if the attribute is missing. -/
structure Element extends CustomJs.Control where
  hasName : Bool
  name_eq_nil : hasName = false → name = []
  dataUncheckedValue : Option JsString := none

-- The pattern `/^[0-9]+$/`.
def isValidArrayIndex (val : JsString) : Bool :=
  val != [] && val.all isDigit

/-- The key that stands for `''` if more keys follow. -/
def lastKey (o : Value Num) (nextKey : JsString) (more : Bool) : JsString :=
  match o with
  | .array items _ =>
    let lastIdx : Int := items.length - 1
    match o.get (ofInt lastIdx) with
    | some lastVal =>
      if lastVal.isObject && ((lastVal.get nextKey).isNone || more) then
        ofInt lastIdx
      else
        ofInt (lastIdx + 1)
    | none => ofInt (lastIdx + 1)
  -- The length of an object is `undefined`, and `undefined - 1` no number.
  | _ => nan

section Opts

variable (opts : Opts Num)

def newContainer (nextKey : JsString) : Value Num :=
  if nextKey = [] then
    .array [] []
  else if opts.useIntKeysAsArrayIndex && isValidArrayIndex nextKey then
    .array [] []
  else
    .object []

def deepSet (o : Value Num) (keys : List JsString) (value : Value Num)
    : Except Failure (Value Num) :=
  match keys with
  | [] => .error .exception
  | [key] =>
    -- In strict mode nothing is set on a primitive value.
    if o.isObject then
      if key = [] then
        match o with
        | .array items props =>
          if items.length < maxLength then
            .ok (.array (items ++ [some value]) props)
          else
            .error .exception
        -- `push` is not a function.
        | _ => .error .exception
      else
        .ok (o.set key value)
    else
      .error .exception
  | key :: nextKey :: tail =>
    if o.isObject then
      let key := if key = [] then lastKey o nextKey (tail != []) else key
      let inner := (o.get key).getD (newContainer opts nextKey)
      match deepSet inner (nextKey :: tail) value with
      | .ok inner => .ok (o.set key inner)
      | .error failure => .error failure
    else
      .error .exception

/-- The boxes that are not checked, disabled ones and ones with an empty name included. -/
def readCheckboxUncheckedValues (formAsArray : List Input) (form : List Element) : List Input :=
  formAsArray ++ (form.filter isUnchecked).filterMap uncheckedValue
where
  isUnchecked (el : Element) : Bool :=
    el.nodeName == .input && el.type == .checkbox && el.hasName && !el.checked
  uncheckedValue (el : Element) : Option Input :=
    match el.dataUncheckedValue with
    | some (u :: value) => some { name := el.name, value := .string (u :: value) }
    | some [] | none =>
      opts.checkboxUncheckedValue.map (fun value => { name := el.name, value := value })

def formAsArray (form : List Element) : List Input :=
  let fields := CustomJs.serializeArray (form.map Element.toControl)
  readCheckboxUncheckedValues opts
    (fields.map (fun field => { name := field.name, value := .string field.value })) form

end Opts

variable (numbers : Numbers Num) (realm : Realm)

def parseValue (opts : Opts Num) (str : Scalar) : Value Num :=
  match str with
  | .string str =>
    if opts.parseNumbers && numbers.isNumeric str then
      .number (numbers.ofString str)
    else if opts.parseBooleans && str == JsString.ofChars ['t', 'r', 'u', 'e'] then
      .boolean true
    else if opts.parseBooleans && str == JsString.ofChars ['f', 'a', 'l', 's', 'e'] then
      .boolean false
    else if opts.parseNulls && str == JsString.ofChars ['n', 'u', 'l', 'l'] then
      .null
    else
      .string str
  -- `parseFloat` makes `NaN` of it, and it equals none of the strings.
  | .boolean b => .boolean b

def readValue (opts : Opts Num) (value : Scalar) : Value Num :=
  match opts.parseWithFunction with
  | some f => f (parseValue numbers opts value)
  | none => parseValue numbers opts value

end SerializeJson
