import Mathlib.Data.Rat.Defs

set_option autoImplicit false

/-!
# JSON values, as `serde_json::Value`

Objects are key lists; every reader goes through `get?`, which returns the
value of the first occurrence of a key, and every writer through `insert`,
which replaces it in place. Text and values are related by `SerdeJson`: the
parser and the printer of `serde_json` are not part of the repository.
-/
namespace Wiremux.JsonValue

/-- A finite binary float is kept as the rational it denotes. -/
inductive Number where
  | posInt (n : ℕ)
  | negInt (n : ℕ)
  | float (q : ℚ)
deriving DecidableEq

inductive Value where
  | null
  | bool (b : Bool)
  | number (n : Number)
  | string (s : String)
  | array (items : List Value)
  | object (fields : List (String × Value))

namespace Value

instance : Coe String Value := ⟨.string⟩
instance : Coe ℕ Value := ⟨fun n => .number (.posInt n)⟩
instance (n : ℕ) : OfNat Value n := ⟨.number (.posInt n)⟩
instance : Inhabited Value := ⟨.null⟩

def get? : Value → String → Option Value
  | .object fields, key => fields.lookup key
  | _, _ => none

def asStr? : Value → Option String
  | .string s => some s
  | _ => none

def asU64? : Value → Option ℕ
  | .number (.posInt n) => some n
  | _ => none

def asF64? : Value → Option Number
  | .number (.posInt n) => some (.float n)
  | .number (.negInt n) => some (.float (-(n : ℚ)))
  | .number (.float q) => some (.float q)
  | _ => none

def asBool? : Value → Option Bool
  | .bool b => some b
  | _ => none

def asArray? : Value → Option (List Value)
  | .array items => some items
  | _ => none

def isObject : Value → Bool
  | .object _ => true
  | _ => false

def isNumber : Value → Bool
  | .number _ => true
  | _ => false

def isNull : Value → Bool
  | .null => true
  | _ => false

def insertField (key : String) (x : Value) : List (String × Value) → List (String × Value)
  | [] => [(key, x)]
  | (k, v) :: rest => if k = key then (key, x) :: rest else (k, v) :: insertField key x rest

def insert (v : Value) (key : String) (x : Value) : Value :=
  match v with
  | .object fields => .object (insertField key x fields)
  | other => other

def remove (v : Value) (key : String) : Value :=
  match v with
  | .object fields => .object (fields.filter (fun f => f.1 ≠ key))
  | other => other

def ofInt : ℤ → Value
  | .ofNat n => .number (.posInt n)
  | .negSucc n => .number (.negInt (n + 1))

def insertSome (v : Value) (key : String) : Option Value → Value
  | some x => v.insert key x
  | none => v

def nth? : Value → ℕ → Option Value
  | .array items, i => items[i]?
  | _, _ => none

/-- A string leaf at `key`. -/
def strAt? (v : Value) (key : String) : Option String := (v.get? key).bind asStr?

theorem lookup_insertField_of_ne {key other : String} (x : Value) (h : other ≠ key)
    (fields : List (String × Value)) :
    (insertField key x fields).lookup other = fields.lookup other := by
  induction fields with
  | nil => simp [insertField, List.lookup_cons, beq_false_of_ne h]
  | cons f rest ih =>
    obtain ⟨k, v⟩ := f
    unfold insertField
    by_cases hk : k = key
    · subst hk
      simp [List.lookup_cons, beq_false_of_ne h]
    · rw [if_neg hk]
      simp only [List.lookup_cons, ih]

theorem get?_insert_of_ne {key other : String} (v x : Value) (h : other ≠ key) :
    (v.insert key x).get? other = v.get? other := by
  cases v with
  | object fields => exact lookup_insertField_of_ne x h fields
  | _ => rfl

theorem lookup_insertField_self (key : String) (x : Value) (fields : List (String × Value)) :
    (insertField key x fields).lookup key = some x := by
  induction fields with
  | nil => simp [insertField]
  | cons f rest ih =>
    obtain ⟨k, v⟩ := f
    unfold insertField
    by_cases hk : k = key
    · simp [hk]
    · rw [if_neg hk]
      simp only [List.lookup_cons, beq_false_of_ne (Ne.symm hk), ih]

theorem get?_insert_self {v : Value} (key : String) (x : Value) (h : v.isObject = true) :
    (v.insert key x).get? key = some x := by
  cases v with
  | object fields => exact lookup_insertField_self key x fields
  | _ => cases h

theorem insertField_of_lookup {key : String} {x : Value} {fields : List (String × Value)}
    (h : fields.lookup key = some x) : insertField key x fields = fields := by
  induction fields with
  | nil => cases h
  | cons f rest ih =>
    obtain ⟨k, v⟩ := f
    unfold insertField
    by_cases hk : k = key
    · subst hk
      rw [if_pos rfl]
      rw [List.lookup_cons, beq_self_eq_true] at h
      rw [Option.some.inj h]
    · rw [if_neg hk]
      rw [List.lookup_cons, beq_false_of_ne (Ne.symm hk)] at h
      rw [ih h]

theorem insert_of_get? {v x : Value} {key : String} (h : v.get? key = some x) :
    v.insert key x = v := by
  cases v with
  | object fields => exact congrArg Value.object (insertField_of_lookup h)
  | _ => rfl

@[simp] theorem isObject_object (fields : List (String × Value)) :
    (Value.object fields).isObject = true := rfl

@[simp] theorem isObject_insert (v : Value) (key : String) (x : Value) :
    (v.insert key x).isObject = v.isObject := by
  cases v <;> rfl

@[simp] theorem isObject_insertSome (v : Value) (key : String) (x : Option Value) :
    (v.insertSome key x).isObject = v.isObject := by
  cases x with
  | none => rfl
  | some x => exact isObject_insert v key x

theorem get?_insertSome_of_ne {key other : String} (v : Value) (x : Option Value)
    (h : other ≠ key) : (v.insertSome key x).get? other = v.get? other := by
  cases x with
  | none => rfl
  | some x => exact get?_insert_of_ne v x h

theorem strAt?_insertSome_of_ne {key other : String} (v : Value) (x : Option Value)
    (h : other ≠ key) : (v.insertSome key x).strAt? other = v.strAt? other := by
  rw [strAt?, strAt?, get?_insertSome_of_ne v x h]

def isNonEmptyArray (v : Value) : Bool := (v.asArray?).any (fun items => !items.isEmpty)

end Value

/-- `serde_json::from_str` (errors forgotten) and `Value::to_string`. -/
structure SerdeJson where
  fromStr : String → Option Value
  toString : Value → String

/-- `serde_json` on the empty object and on flat objects of plain strings, for
concrete runs. -/
def flatJson : SerdeJson where
  fromStr text := if text = "{}" then some (.object []) else none
  toString
    | .string s => "\"" ++ s ++ "\""
    | .object fields => "\x7b" ++ ",".intercalate (fields.map fun f =>
        "\"" ++ f.1 ++ "\":\"" ++ (f.2.asStr?).getD "" ++ "\"") ++ "\x7d"
    | _ => "null"

/-- `u32::try_from` on an unsigned count. -/
def u32Max : ℕ := 4294967295

def toU32? (n : ℕ) : Option ℕ := if n ≤ u32Max then some n else none

def satAdd (a b : ℕ) : ℕ := min (a + b) u32Max

def isWhitespace (c : Char) : Bool :=
  let n := c.toNat
  (9 ≤ n && n ≤ 13) || n == 0x20 || n == 0x85 || n == 0xA0 || n == 0x1680 ||
    (0x2000 ≤ n && n ≤ 0x200A) || n == 0x2028 || n == 0x2029 || n == 0x202F ||
    n == 0x205F || n == 0x3000

def trim (s : String) : String :=
  String.ofList
    (((s.toList.dropWhile isWhitespace).reverse.dropWhile isWhitespace).reverse)

def isBlank (s : String) : Bool := (trim s).isEmpty

def asciiLowerChar (c : Char) : Char :=
  if 'A'.toNat ≤ c.toNat ∧ c.toNat ≤ 'Z'.toNat then Char.ofNat (c.toNat + 32) else c

def asciiLower (s : String) : String := String.ofList (s.toList.map asciiLowerChar)

def nonBlankStr? (v : Value) : Option String := v.asStr?.filter (fun t => !isBlank t)

def nonEmptyStr? (v : Value) : Option String := v.asStr?.filter (fun t => !t.isEmpty)

def countU32? (v : Value) : Option ℕ := v.asU64?.bind toU32?

theorem satAdd_one_of_lt {n : ℕ} (h : n < u32Max) : satAdd n 1 = n + 1 := by
  unfold satAdd
  omega

theorem satAdd_one_le (n : ℕ) : satAdd n 1 ≤ n + 1 := Nat.min_le_left _ _

theorem le_satAdd_one {n : ℕ} (h : n < u32Max) : n ≤ satAdd n 1 := by
  rw [satAdd_one_of_lt h]
  exact Nat.le_succ n

end Wiremux.JsonValue
