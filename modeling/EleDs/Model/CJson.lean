/-
The part of cJSON (`packages/cJSON-v1.7.17`) the firmware touches.

A parsed document is a tree.  Every node of the C library carries all of
`valueint`, `valuedouble` and `valuestring`, whatever its type, and the firmware
reads them without looking at the type, so the accessors below are total: a field
the type does not fill is zero or a null pointer.  Looking up a member is exact in
what it returns for an absent key, a null pointer, because that is what the
callers forget about.

The text format itself, `cJSON_Parse` and `cJSON_Print`, is a parameter.
-/
import Mathlib.Data.Rat.Defs
import EleDs.Lib.Bytes

namespace EleDs

open CMem

/-- A cJSON tree.  A number is the double it was parsed to, kept as a rational. -/
inductive CJson where
  | null
  | bool (b : Bool)
  | number (d : ℚ)
  | string (s : Bytes)
  | array (items : List CJson)
  | object (members : List (Bytes × CJson))
deriving Inhabited

namespace CJson

def INT_MAX : Int := 2147483647
def INT_MIN : Int := -2147483648

/-- `(int)number`, saturated at both ends as `parse_number` and `cJSON_CreateNumber` do. -/
def saturate (d : ℚ) : Int :=
  if (INT_MAX : ℚ) ≤ d then INT_MAX
  else if d ≤ (INT_MIN : ℚ) then INT_MIN
  else d.num.tdiv d.den

def valueint : CJson → Int
  | bool true => 1
  | number d => saturate d
  | _ => 0

def valuedouble : CJson → ℚ
  | number d => d
  | _ => 0

/-- `none` is the null pointer every item but a string carries. -/
def valuestring : CJson → Option Bytes
  | string s => some s
  | _ => none

/-- The items `cJSON_GetArraySize` counts and `cJSON_GetArrayItem` picks from: the
children of an array or an object. -/
def children : CJson → List CJson
  | array items => items
  | object members => members.map (·.2)
  | _ => []

/-- `tolower` on the C locale. -/
def tolower (b : UInt8) : UInt8 := if 65 ≤ b ∧ b ≤ 90 then b + 32 else b

/-- `case_insensitive_strcmp(a, b) == 0`. -/
def sameKey (a b : Bytes) : Bool := a.map tolower == b.map tolower

/-- `cJSON_GetObjectItem`: the first member of that name, up to case. -/
def getObjectItem (json : CJson) (name : Bytes) : Option CJson :=
  match json with
  | object members => (members.find? fun m => sameKey name m.1).map (·.2)
  | _ => none

/-- `cJSON_GetObjectItem(json, name)->valueint`. -/
def itemInt (json : CJson) (name : Bytes) : Except Fault Int :=
  match json.getObjectItem name with
  | none => .error .nullDeref
  | some item => .ok item.valueint

/-- `cJSON_GetObjectItem(json, name)->valuestring`, a pointer that may be null. -/
def itemString (json : CJson) (name : Bytes) : Except Fault (Option Bytes) :=
  match json.getObjectItem name with
  | none => .error .nullDeref
  | some item => .ok item.valuestring

/-- Truncating a quotient keeps it between integer bounds on either side of zero. -/
private theorem tdiv_bounds {a b m n : Int} (hb : 0 < b) (hn : 0 < n)
    (hlo : m * b < a) (hhi : a < n * b) : m ≤ a.tdiv b ∧ a.tdiv b < n := by
  rcases Int.le_total 0 a with h | h
  · rw [Int.tdiv_eq_ediv_of_nonneg h]
    exact ⟨Int.le_ediv_of_mul_le hb (Int.le_of_lt hlo), Int.ediv_lt_of_lt_mul hb hhi⟩
  · have hneg : a.tdiv b = -((-a) / b) := by
      rw [← Int.tdiv_eq_ediv_of_nonneg (by omega), Int.neg_tdiv, Int.neg_neg]
    have hlt : (-a) / b < -m := Int.ediv_lt_of_lt_mul hb (by rw [Int.neg_mul]; omega)
    have hnonneg : 0 ≤ (-a) / b := Int.ediv_nonneg (by omega) (Int.le_of_lt hb)
    omega

/-- `valueint` is an `int`. -/
theorem saturate_range (d : ℚ) : -2147483648 ≤ saturate d ∧ saturate d < 2147483648 := by
  unfold saturate
  split
  · simp [INT_MAX]
  · rename_i hhi
    split
    · simp [INT_MIN]
    · rename_i hlo
      have hden : (0 : Int) < d.den := by exact_mod_cast d.den_pos
      rw [Rat.not_le, Rat.lt_iff] at hhi hlo
      have hnum : d.num < INT_MAX * d.den := by simpa using hhi
      have hnum' : INT_MIN * d.den < d.num := by simpa using hlo
      have := tdiv_bounds hden (by decide) hnum' hnum
      simp only [INT_MIN, INT_MAX] at this
      omega

theorem valueint_range (json : CJson) : -2147483648 ≤ json.valueint ∧ json.valueint < 2147483648 := by
  unfold valueint
  split
  · decide
  · exact saturate_range _
  · decide

end CJson

/-- The two directions of the text format. -/
structure CJsonLib where
  parse : Bytes → Option CJson
  print : CJson → Bytes

/-- A library that knows the documents of a few texts and prints one of them. -/
def tableLib (table : List (Bytes × CJson)) (printed : Bytes) : CJsonLib where
  parse text := (table.find? fun e => e.1 == text).map (·.2)
  print _ := printed

end EleDs
