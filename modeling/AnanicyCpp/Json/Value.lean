import AnanicyCpp.Library.Fallible
import AnanicyCpp.Library.SortedMap
import AnanicyCpp.Library.Word
import Mathlib.Data.String.Basic

/-!
# JSON values

The data model of `nlohmann::json`, as far as the program uses it: the kinds of values, the
members of an object, and the conversions to C++ types that throw `type_error` on a value of the
wrong kind. An object is a `std::map`, so its members are listed in strictly increasing key order
at every depth (`Json.isCanonical`), and `JsonValue` is the type of the values that satisfy this.

A string is a sequence of bytes, one `Char` for each byte. A floating-point number is its exact
value; no JSON text denotes an infinity or a NaN.

## Main definitions

* `Json`, `JsonValue` : values, and values with ordered objects.
* `Json.find?`, `Json.contains`, `Json.stringMember` : access to the members of an object.
* `Json.getString`, `Json.getInt`, `Json.getUnsigned` : the conversions, failing with `TypeError`.

## Main results

* `Json.toInt_getInt`, `Json.toNat_getUnsigned` : the conversions of integers modulo `2 ^ 32`.
* `Json.inductionOnMembers` : induction over values through the members of objects.
* `Json.isCanonical_object_iff` : canonical objects have sorted keys and canonical members.
-/

namespace AnanicyCpp

/-- A JSON value. -/
inductive Json where
  | null
  | boolean (b : Bool)
  | numberInteger (n : Int64)
  | numberUnsigned (n : UInt64)
  | numberFloat (x : Rat)
  | string (s : String)
  | array (elements : List Json)
  | object (members : List (String × Json))

/-- `type_error.302`: the kind a conversion wanted and the kind it found. -/
structure TypeError where
  wanted : String
  found : String
deriving DecidableEq

namespace Json

/-- `type_name()` -/
def typeName : Json → String
  | null => "null"
  | boolean _ => "boolean"
  | numberInteger _ | numberUnsigned _ | numberFloat _ => "number"
  | string _ => "string"
  | array _ => "array"
  | object _ => "object"

def isNull : Json → Bool
  | null => true
  | _ => false

def isString : Json → Bool
  | string _ => true
  | _ => false

def isObject : Json → Bool
  | object _ => true
  | _ => false

/-- `is_number_integer()` holds for signed and unsigned integers. -/
def isNumberInteger : Json → Bool
  | numberInteger _ | numberUnsigned _ => true
  | _ => false

/-- The members of an object; other values have none. -/
def members : Json → List (String × Json)
  | object ms => ms
  | _ => []

/-- The member of an object under a key. -/
def find? (v : Json) (key : String) : Option Json :=
  SortedAssoc.find key v.members

/-- `operator[]` of a constant object, which may only be asked for a key that is there. -/
def index (v : Json) (key : String) : Json :=
  (v.find? key).getD null

/-- `operator[]` with a key. A member that is not there is made, as `null`; only objects, and `null`
that becomes one, have members. -/
def subscript (v : Json) (key : String) : Except TypeError Json :=
  match v with
  | null | object _ => .ok (v.index key)
  | v => .error ⟨"object", v.typeName⟩

/-- What an assignment to `v[key]`, or to a part of it, makes of an object or of `null`. -/
def update (v : Json) (key : String) (f : Json → Json) : Json :=
  object (SortedAssoc.insert key (f (v.index key)) v.members)

/-- `erase(key)` of an object -/
def eraseKey (v : Json) (key : String) : Json := object (SortedAssoc.erase key v.members)

/-- `contains(key)` -/
def contains (v : Json) (key : String) : Bool :=
  (v.find? key).isSome

/-- The text of the member `key` when `contains(key) && (*this)[key].is_string()`. -/
def stringMember (v : Json) (key : String) : Option String :=
  match v.find? key with
  | some (string s) => some s
  | _ => none

theorem find_update (v : Json) (key : String) (f : Json → Json) (key' : String) :
    (v.update key f).find? key' = if key' = key then some (f (v.index key)) else v.find? key' :=
  SortedAssoc.find_insert key' key _ v.members

theorem index_update (v : Json) (key : String) (f : Json → Json) (key' : String) :
    (v.update key f).index key' = if key' = key then f (v.index key) else v.index key' := by
  rw [index, find_update]
  split_ifs <;> rfl

theorem find_eraseKey (v : Json) (key key' : String) :
    (v.eraseKey key).find? key' = if key' = key then none else v.find? key' :=
  SortedAssoc.find_erase key' key v.members

theorem index_eraseKey (v : Json) (key key' : String) :
    (v.eraseKey key).index key' = if key' = key then null else v.index key' := by
  rw [index, find_eraseKey]
  split_ifs <;> rfl

theorem subscript_of_isObject {v : Json} (h : v.isObject = true) (key : String) :
    v.subscript key = .ok (v.index key) := by
  cases v with
  | object ms => rfl
  | _ => exact absurd h Bool.false_ne_true

theorem index_of_find {v w : Json} {key : String} (h : v.find? key = some w) : v.index key = w := by
  rw [index, h, Option.getD_some]

/-! ### Conversions -/

/-- A floating-point number without its fraction. -/
def truncate (x : Rat) : ℤ :=
  if x < 0 then x.ceil else x.floor

/-- `get<std::string>()` -/
def getString : Json → Except TypeError String
  | string s => .ok s
  | v => .error ⟨"string", v.typeName⟩

/-- `get<int>()`: a `static_cast` of the stored number or Boolean. A floating-point number outside
the range of `int` is undefined behaviour in C++; the low 32 bits stand for it here. -/
def getInt : Json → Except TypeError Int32
  | numberInteger n => .ok n.toInt32
  | numberUnsigned n => .ok n.toUInt32.toInt32
  | numberFloat x => .ok (Int32.ofInt (truncate x))
  | boolean b => .ok (if b then 1 else 0)
  | v => .error ⟨"number", v.typeName⟩

/-- `get<unsigned>()`, with the same convention for floating-point numbers. -/
def getUnsigned : Json → Except TypeError UInt32
  | numberInteger n => .ok n.toInt32.toUInt32
  | numberUnsigned n => .ok n.toUInt32
  | numberFloat x => .ok (Int32.ofInt (truncate x)).toUInt32
  | boolean b => .ok (if b then 1 else 0)
  | v => .error ⟨"number", v.typeName⟩

/-- The kinds that convert to an arithmetic type. -/
def isArithmetic : Json → Bool
  | numberInteger _ | numberUnsigned _ | numberFloat _ | boolean _ => true
  | _ => false

/-- The integer that a JSON integer denotes. -/
def integerValue : Json → Option ℤ
  | numberInteger n => some n.toInt
  | numberUnsigned n => some n.toNat
  | _ => none

theorem integerValue_eq_some_iff {v : Json} {n : ℤ} : v.integerValue = some n ↔
    (∃ m, v = numberInteger m ∧ m.toInt = n) ∨ ∃ m, v = numberUnsigned m ∧ (m.toNat : ℤ) = n := by
  cases v <;> simp [integerValue]

/-- `get<int>()` of an integer. -/
theorem toInt_getInt {v : Json} {n : ℤ} (hv : v.integerValue = some n) :
    ∃ x, v.getInt = .ok x ∧ x.toInt = n.bmod (2 ^ 32) := by
  rcases integerValue_eq_some_iff.mp hv with ⟨m, rfl, rfl⟩ | ⟨m, rfl, rfl⟩
  · exact ⟨m.toInt32, rfl, m.toInt_toInt32⟩
  · refine ⟨m.toUInt32.toInt32, rfl, ?_⟩
    rw [Word.toInt_toInt32, UInt64.toNat_toUInt32]
    exact Int.emod_bmod m.toNat (2 ^ 32)

/-- `get<unsigned>()` of an integer. -/
theorem toNat_getUnsigned {v : Json} {n : ℤ} (hv : v.integerValue = some n) :
    ∃ x, v.getUnsigned = .ok x ∧ (x.toNat : ℤ) = n % 2 ^ 32 := by
  rcases integerValue_eq_some_iff.mp hv with ⟨m, rfl, rfl⟩ | ⟨m, rfl, rfl⟩
  · refine ⟨m.toInt32.toUInt32, rfl, ?_⟩
    rw [Word.toNat_toUInt32, m.toInt_toInt32]
    exact Int.bmod_emod
  · refine ⟨m.toUInt32, rfl, ?_⟩
    rw [UInt64.toNat_toUInt32]
    rfl

theorem isNumberInteger_of_integerValue {v : Json} {n : ℤ} (hv : v.integerValue = some n) :
    v.isNumberInteger = true := by
  rcases integerValue_eq_some_iff.mp hv with ⟨m, rfl, rfl⟩ | ⟨m, rfl, rfl⟩ <;> rfl

theorem isOk_getString_iff (v : Json) : v.getString.isOk ↔ v.isString := by
  cases v <;> simp [getString, isString]

theorem getString_eq_ok_iff {v : Json} {s : String} : v.getString = .ok s ↔ v = string s := by
  cases v <;> simp [getString]

theorem isOk_getUnsigned_iff (v : Json) : v.getUnsigned.isOk ↔ v.isArithmetic := by
  cases v <;> simp [getUnsigned, isArithmetic]

/-! ### Canonical values -/

mutual

/-- Every object lists its members in strictly increasing key order. -/
def isCanonical : Json → Bool
  | array es => elementsCanonical es
  | object ms => decide (SortedAssoc.Sorted ms) && membersCanonical ms
  | _ => true

def elementsCanonical : List Json → Bool
  | [] => true
  | e :: es => e.isCanonical && elementsCanonical es

def membersCanonical : List (String × Json) → Bool
  | [] => true
  | (_, v) :: ms => v.isCanonical && membersCanonical ms

end

theorem membersCanonical_iff {ms : List (String × Json)} :
    membersCanonical ms ↔ ∀ e ∈ ms, e.2.isCanonical := by
  induction ms with
  | nil => simp [membersCanonical]
  | cons e ms ih => simp [membersCanonical, ih]

theorem isCanonical_object_iff {ms : List (String × Json)} :
    (object ms).isCanonical ↔ SortedAssoc.Sorted ms ∧ ∀ e ∈ ms, e.2.isCanonical := by
  rw [isCanonical, Bool.and_eq_true, decide_eq_true_iff, membersCanonical_iff]

theorem isCanonical_of_integerValue {v : Json} {n : ℤ} (hv : v.integerValue = some n) :
    v.isCanonical := by
  rcases integerValue_eq_some_iff.mp hv with ⟨m, rfl, rfl⟩ | ⟨m, rfl, rfl⟩ <;> rfl

/-- Induction over values in which the hypothesis covers the members of an object. Arrays and
scalars are leaves: nothing in the program descends into an array. -/
@[elab_as_elim]
theorem inductionOnMembers {P : Json → Prop} (v : Json)
    (leaf : ∀ v : Json, v.isObject = false → P v)
    (object : ∀ ms, (∀ e ∈ ms, P e.2) → P (.object ms)) : P v := by
  refine @Json.rec P (fun _ => True) (fun ms => ∀ e ∈ ms, P e.2) (fun e => P e.2)
    (leaf _ rfl) (fun _ => leaf _ rfl) (fun _ => leaf _ rfl) (fun _ => leaf _ rfl)
    (fun _ => leaf _ rfl) (fun _ => leaf _ rfl) (fun _ _ => leaf _ rfl) object
    trivial (fun _ _ _ _ => trivial) (by simp) ?_ (fun _ _ h => h) v
  intro e ms he hms e' he'
  rcases List.mem_cons.mp he' with rfl | he'
  · exact he
  · exact hms e' he'

end Json

/-- The values that `nlohmann::json` can hold. -/
abbrev JsonValue := {v : Json // v.isCanonical}

end AnanicyCpp
