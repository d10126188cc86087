import Pwatch.Text.Number

/-!
# Values of JavaScript

The values that `JSON.parse` makes, with `undefined` for a property that an object has not, and
what a script can do with them without knowing what they are.  Each operation that is not there
for a value throws a `TypeError`.

A number is known by the text that `String` gives it.  None of these values is a function: an
object with an own `toString` has no text.
-/

namespace Pwatch.Ui

open Text

inductive JsValue
  | undefined
  | null
  | bool (b : Bool)
  | number (text : Str)
  | string (s : Str)
  | array (elements : List JsValue)
  | object (fields : List (Str × JsValue))

/-- What a `TypeError` is about. -/
inductive Fault
  | /-- A property of `undefined` or `null`. -/
    property (value : JsValue) (name : Str)
  | /-- A `for` loop over a value that has no elements. -/
    iterate (value : JsValue)
  | /-- A method that the value has not. -/
    call (value : JsValue) (method : Str)
  | /-- The text of an object that has none. -/
    convert (value : JsValue)

namespace JsValue

/-- `Boolean(value)`. -/
def truthy : JsValue → Bool
  | undefined | null => false
  | bool b => b
  | number text => text != "0".toList && text != "NaN".toList
  | string s => !s.isEmpty
  | array _ | object _ => true

/-- `value || other`. -/
def orElse (value other : JsValue) : JsValue := if value.truthy then value else other

/-- The number of UTF-16 code units. -/
def jsLength (s : Str) : Nat := (s.map fun c ↦ if c.toNat < 0x10000 then 1 else 2).sum

/-- `value.name`, for a name that no prototype has but with `length`. -/
def get (value : JsValue) (name : Str) : Except Fault JsValue :=
  match value with
  | undefined | null => .error (.property value name)
  | bool _ | number _ => .ok undefined
  | string s => .ok
      (if name = "length".toList then number (Nat.toDigits 10 (jsLength s)) else undefined)
  | array elements => .ok
      (if name = "length".toList then number (Nat.toDigits 10 elements.length) else undefined)
  | object fields => .ok ((fields.lookup name).getD undefined)

/-- `value?.name`. -/
def get? (value : JsValue) (name : Str) : Except Fault JsValue :=
  match value with
  | undefined | null => .ok undefined
  | value => value.get name

mutual

/-- `String(value)`. -/
def toText : JsValue → Except Fault Str
  | undefined => .ok "undefined".toList
  | null => .ok "null".toList
  | bool b => .ok (if b then "true".toList else "false".toList)
  | number text => .ok text
  | string s => .ok s
  | array elements => return [','].intercalate (← elementTexts elements)
  | object fields =>
      if fields.any fun field ↦ field.1 = "toString".toList then .error (.convert (object fields))
      else .ok "[object Object]".toList

/-- The texts that `join` puts together. -/
def elementTexts : List JsValue → Except Fault (List Str)
  | [] => .ok []
  | undefined :: elements | null :: elements => return [] :: (← elementTexts elements)
  | element :: elements => do
      let text ← element.toText
      return text :: (← elementTexts elements)

end

/-- The text of a node whose `textContent` is set. -/
def textContent : JsValue → Except Fault Str
  | undefined | null => .ok []
  | value => value.toText

/-- The values of a `for` loop. -/
def iterate : JsValue → Except Fault (List JsValue)
  | array elements => .ok elements
  | string s => .ok (s.map fun c ↦ string [c])
  | value => .error (.iterate value)

/-- The elements that a method of arrays takes. -/
def elementsFor (method : Str) : JsValue → Except Fault (List JsValue)
  | array elements => .ok elements
  | undefined => .error (.property undefined method)
  | null => .error (.property null method)
  | value => .error (.call value method)

/-- `Option` in JSON. -/
def ofOption {α : Type} (f : α → JsValue) : Option α → JsValue
  | none => null
  | some a => f a

@[simp] theorem toText_string (s : Str) : (string s).toText = .ok s := by rw [toText]

/-- An array of texts is joined. -/
@[simp] theorem elementTexts_strings (texts : List Str) :
    elementTexts (texts.map string) = .ok texts := by
  induction texts with
  | nil => rw [List.map_nil, elementTexts]
  | cons text texts ih =>
      rw [List.map_cons, elementTexts, toText_string, ih]
      · rfl
      all_goals simp

/-- A number counts as true unless it is zero. -/
theorem truthy_toDigits (n : Nat) : (number (Nat.toDigits 10 n)).truthy = (n != 0) := by
  cases n with
  | zero => rfl
  | succ n =>
      have hzero : Nat.toDigits 10 (n + 1) ≠ "0".toList := fun heq ↦ by
        have hn := @ofDigits_toDigits 10 (by omega) (by omega) (n + 1)
        rw [heq, show ofDigits 10 "0".toList = 0 from rfl] at hn
        omega
      have hnan : Nat.toDigits 10 (n + 1) ≠ "NaN".toList := fun heq ↦ by
        have hdigit := isDigit_of_mem_toDigits (n := n + 1) (c := 'N') (heq ▸ by decide)
        exact absurd hdigit (by decide)
      rw [truthy, bne_iff_ne.mpr hzero, bne_iff_ne.mpr hnan]
      rfl

end JsValue

end Pwatch.Ui
