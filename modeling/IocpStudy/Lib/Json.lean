import Mathlib.Algebra.Group.Nat.Defs

/-! JSON values and the reads of a C++ program that expects a type: of a number as an `int`, of a
string, of the member of an object, with a default or by subscript, and of the elements of a loop
over a value.  A read of a value of another type throws a `TypeError`. -/

/-- A JSON value with floating-point numbers from `F`.  An integer is unsigned where it was written
without a sign, and the members of an object are in the order of their keys. -/
inductive Json (F : Type*)
  | null
  | boolean (b : Bool)
  | numberInteger (n : ℤ)
  | numberUnsigned (n : ℕ)
  | numberFloat (x : F)
  | string (s : String)
  | array (elements : List (Json F))
  | object (members : List (String × Json F))

namespace Json

variable {F α : Type*}

/-- The name of a value's type in messages. -/
def typeName : Json F → String
  | .null => "null"
  | .boolean _ => "boolean"
  | .string _ => "string"
  | .array _ => "array"
  | .object _ => "object"
  | _ => "number"

structure TypeError where
  id : ℕ
  message : String
deriving Repr, DecidableEq

def isNull : Json F → Bool
  | .null => true
  | _ => false

def isArray : Json F → Bool
  | .array _ => true
  | _ => false

/-- There is nothing to loop over. -/
def isEmpty : Json F → Bool
  | .null => true
  | .array elements => elements.isEmpty
  | .object members => members.isEmpty
  | _ => false

/-- What a loop over a value visits: the elements of an array, the members of an object, and a value
that holds no others itself. -/
def elements : Json F → List (Json F)
  | .null => []
  | .array elements => elements
  | .object members => members.map Prod.snd
  | j => [j]

/-- A value as an `int`.  `truncate` is the integer that a floating-point number is cast to. -/
def getInt (truncate : F → ℤ) : Json F → Except TypeError ℤ
  | .numberUnsigned n => .ok (Int.bmod n (2 ^ 32))
  | .numberInteger n => .ok (Int.bmod n (2 ^ 32))
  | .numberFloat x => .ok (Int.bmod (truncate x) (2 ^ 32))
  | .boolean b => .ok b.toNat
  | j => .error ⟨302, "type must be number, but is " ++ j.typeName⟩

def getString : Json F → Except TypeError String
  | .string s => .ok s
  | j => .error ⟨302, "type must be string, but is " ++ j.typeName⟩

/-- The member under `key` as `get` reads it, or `default` where there is none. -/
def value (get : Json F → Except TypeError α) (j : Json F) (key : String) (default : α) :
    Except TypeError α :=
  match j with
  | .object members =>
    match members.lookup key with
    | some v => get v
    | none => .ok default
  | j => .error ⟨306, "cannot use value() with " ++ j.typeName⟩

/-- The member under `key`, which is null where there is none. -/
def member (members : List (String × Json F)) (key : String) : Json F :=
  (members.lookup key).getD .null

/-- The member under `key` by subscript. -/
def subscript (j : Json F) (key : String) : Except TypeError (Json F) :=
  match j with
  | .object members => .ok (member members key)
  | .null => .ok .null
  | j => .error ⟨305, "cannot use operator[] with a string argument with " ++ j.typeName⟩

/-! ### The values that can be read -/

/-- The value under `key`, if it is there, has `P`. -/
def Field (P : Json F → Prop) (members : List (String × Json F)) (key : String) : Prop :=
  ∀ v, members.lookup key = some v → P v

def IsNumber : Json F → Prop
  | .numberInteger _ | .numberUnsigned _ | .numberFloat _ | .boolean _ => True
  | _ => False

def IsString : Json F → Prop
  | .string _ => True
  | _ => False

variable {truncate : F → ℤ} {get : Json F → Except TypeError α} {P : Json F → Prop} {j : Json F}
  {members : List (String × Json F)} {key : String} {default : α}

/-- One read after another. -/
theorem bind_eq_ok {ε β : Type*} {x : Except ε α} {f : α → Except ε β} {b : β} :
    x.bind f = .ok b ↔ ∃ a, x = .ok a ∧ f a = .ok b := by
  cases x with
  | error e =>
    constructor
    · intro h
      cases h
    · rintro ⟨a, h, -⟩
      cases h
  | ok a =>
    constructor
    · exact fun h => ⟨a, rfl, h⟩
    · rintro ⟨a', h, hb⟩
      obtain rfl := Except.ok.inj h
      exact hb

theorem getInt_isOk_iff : (∃ n, j.getInt truncate = .ok n) ↔ j.IsNumber := by
  cases j <;> simp [getInt, IsNumber]

theorem getString_isOk_iff : (∃ s, j.getString = .ok s) ↔ j.IsString := by
  cases j <;> simp [getString, IsString]

@[simp] theorem value_object (get : Json F → Except TypeError α) (members : List (String × Json F))
    (key : String) (default : α) :
    (Json.object members).value get key default =
      ((members.lookup key).map get).getD (.ok default) := by
  rw [value]
  cases members.lookup key <;> rfl

@[simp] theorem subscript_object (members : List (String × Json F)) (key : String) :
    (Json.object members).subscript key = .ok (member members key) := rfl

theorem isNull_iff : j.isNull = true ↔ j = .null := by
  cases j <;> simp [isNull]

/-- A member with a default is read from objects only. -/
theorem object_of_value {a : α} (h : j.value get key default = .ok a) :
    ∃ members, j = .object members := by
  cases j with
  | object members => exact ⟨members, rfl⟩
  | _ => cases h

theorem value_isOk_iff (hget : ∀ v, (∃ a, get v = .ok a) ↔ P v) :
    (∃ a, (Json.object members).value get key default = .ok a) ↔ Field P members key := by
  rw [value_object]
  unfold Field
  cases hlookup : members.lookup key with
  | none => simp
  | some v =>
    simp only [Option.map_some, Option.getD_some, Option.some.injEq, forall_eq']
    exact hget v

theorem int_isOk_iff (truncate : F → ℤ) (members : List (String × Json F)) (key : String) (n : ℤ) :
    (∃ a, (Json.object members).value (getInt truncate) key n = .ok a) ↔
      Field IsNumber members key :=
  value_isOk_iff fun _ => getInt_isOk_iff

theorem string_isOk_iff (members : List (String × Json F)) (key s : String) :
    (∃ a, (Json.object members).value getString key s = .ok a) ↔ Field IsString members key :=
  value_isOk_iff fun _ => getString_isOk_iff

end Json
