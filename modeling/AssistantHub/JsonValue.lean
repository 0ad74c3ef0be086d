import Mathlib.Algebra.Group.Nat.Defs
import Mathlib.Data.List.Basic

namespace AssistantHub.JsonValue

/-- A number as `serde_json` keeps it. -/
inductive Number where
  | posInt (n : UInt64)
  | negInt (n : Int64)
  | float (bits : UInt64)
  deriving DecidableEq, Repr

inductive Value where
  | null
  | bool (b : Bool)
  | number (n : Number)
  | string (s : String)
  | array (values : List Value)
  | object (fields : List (String × Value))

/-- `value[key]`: null when there is no such field or the value is no object. -/
def Value.index (value : Value) (key : String) : Value :=
  match value with
  | .object fields => (fields.lookup key).getD .null
  | _ => .null

/-- `value[i]` -/
def Value.item (value : Value) (i : Nat) : Value :=
  match value with
  | .array values => values.getD i .null
  | _ => .null

/-- `value[a][b]..` -/
def Value.indexAll (value : Value) (keys : List String) : Value := keys.foldl Value.index value

/-- `value.get(key)` -/
def Value.get (value : Value) (key : String) : Option Value :=
  match value with
  | .object fields => fields.lookup key
  | _ => none

def Value.asStr : Value → Option String
  | .string s => some s
  | _ => none

def Value.asArray : Value → Option (List Value)
  | .array values => some values
  | _ => none

def Value.asU64 : Value → Option UInt64
  | .number (.posInt n) => some n
  | _ => none

def Value.asBool : Value → Option Bool
  | .bool b => some b
  | _ => none

def Value.isNull : Value → Bool
  | .null => true
  | _ => false

def Value.isArray : Value → Bool
  | .array _ => true
  | _ => false

def Value.isObject : Value → Bool
  | .object _ => true
  | _ => false

def Value.asI64 : Value → Option Int
  | .number (.posInt n) => if n.toNat < 2 ^ 63 then some n.toNat else none
  | .number (.negInt n) => some n.toInt
  | _ => none

def Value.filterFields (keep : String → Bool) : Value → Value
  | .object fields => .object (fields.filter fun p => keep p.1)
  | value => value

theorem lookup_filter_fst {β : Type*} (keep : String → Bool)
    (fields : List (String × β)) {key : String} (h : keep key = true) :
    (fields.filter fun p => keep p.1).lookup key = fields.lookup key := by
  induction fields with
  | nil => rfl
  | cons p fields ih =>
      obtain ⟨name, value⟩ := p
      rcases eq_or_ne key name with rfl | hne
      · rw [List.filter_cons_of_pos (by exact h)]
        simp
      · rw [List.lookup_cons, beq_false_of_ne hne]
        by_cases hkeep : keep name = true
        · rw [List.filter_cons_of_pos (by exact hkeep), List.lookup_cons,
            beq_false_of_ne hne]
          exact ih
        · rw [List.filter_cons_of_neg (by exact hkeep)]
          exact ih

theorem index_filterFields {keep : String → Bool} {key : String}
    (h : keep key = true) (value : Value) :
    (value.filterFields keep).index key = value.index key := by
  cases value with
  | object fields =>
      simp only [Value.filterFields, Value.index, lookup_filter_fst keep fields h]
  | _ => rfl

end AssistantHub.JsonValue
