/-
# ChapterCheck.Json.Value -- documents as data

A document is a `Value`. Two conventions hold throughout the library.

* A number is an `integer` or a `decimal`, and the two never meet: `1` and `1.0` are different
  values. Integers are exact; decimals are binary64.
* The members of an object are a list of keys with their values. A document that was read has them
  in ascending order of the keys, each key once (`Members.insert` keeps it so); a document that is
  only written may hold its members in the order in which they are to appear.

`Value.resolve?` follows a `Path`; `Value.same` is the equality that tells documents apart.
-/
import ChapterCheck.Path

namespace ChapterCheck.Json

/-- A number: exact, or binary64. -/
inductive Number where
  | integer (n : Int)
  | decimal (x : Float)

/-- A document, or a part of one. -/
inductive Value where
  | null
  | bool (b : Bool)
  | number (n : Number)
  | string (s : String)
  | array (items : List Value)
  | object (members : List (String × Value))

/-- The **`Members`** of an object: keys with their values. -/
abbrev Members := List (String × Value)

/-! ## Members -/

namespace Members

/-- **`get?`** -- the value under `key`. -/
def get? (members : Members) (key : String) : Option Value :=
  List.lookup key members

/-- **`has`** -- whether `key` is there; a key that holds `null` is. -/
def has (members : Members) (key : String) : Bool :=
  (members.get? key).isSome

/-- **`insert`** -- puts `value` under `key`, at its place in the order of the keys; a value that
stood there gives way. -/
def insert (key : String) (value : Value) : Members → Members
  | [] => [(key, value)]
  | (k, v) :: rest =>
    if key < k then (key, value) :: (k, v) :: rest
    else if key = k then (key, value) :: rest
    else (k, v) :: insert key value rest

/-- **`ofList`** -- the members that are written one after the other: in order of their keys, the
last one winning where a key comes twice. -/
def ofList (written : List (String × Value)) : Members :=
  written.foldl (fun members (key, value) => members.insert key value) []

@[simp] theorem get?_nil (key : String) : get? [] key = none := rfl

theorem get?_cons (k : String) (v : Value) (rest : Members) (key : String) :
    get? ((k, v) :: rest) key = if key = k then some v else get? rest key := by
  by_cases h : key = k
  · simp [get?, h]
  · simp [get?, List.lookup_cons, h, beq_false_of_ne h]

/-- What was put under a key is found there, and nothing else changes. -/
theorem get?_insert (key : String) (value : Value) (other : String) :
    ∀ members : Members,
      get? (insert key value members) other = if other = key then some value else get? members other
  | [] => by simp [insert, get?_cons]
  | (k, v) :: rest => by
    have ih := get?_insert key value other rest
    unfold insert
    split
    · simp [get?_cons]
    · split
      · subst_vars
        by_cases h : other = k <;> simp [get?_cons, h]
      · rename_i hne
        by_cases hk : other = k
        · subst hk
          simp [get?_cons, Ne.symm hne]
        · simp [get?_cons, hk, ih]

end Members

/-! ## Parts of a value -/

namespace Value

/-- The text of a string. -/
def asString? : Value → Option String
  | .string s => some s
  | _ => none

/-- The elements of an array. -/
def asArray? : Value → Option (List Value)
  | .array items => some items
  | _ => none

/-- The members of an object. -/
def asObject? : Value → Option Members
  | .object members => some members
  | _ => none

/-- **`field?`** -- what an object holds under `key`; nothing else holds anything. -/
def field? (v : Value) (key : String) : Option Value :=
  v.asObject?.bind (Members.get? · key)

/-- **`item?`** -- the element of an array at a place. -/
def item? (v : Value) (place : Nat) : Option Value :=
  v.asArray?.bind (·[place]?)

/-- **`step?`** -- one step down. -/
def step? (v : Value) : Step → Option Value
  | .field name => v.field? name
  | .index place => v.item? place

/-- **`resolve?`** -- the node that a path leads to, if each of its steps leads somewhere. -/
def resolve? (v : Value) : Path → Option Value
  | [] => some v
  | step :: rest => (v.step? step).bind (resolve? · rest)

@[simp] theorem resolve?_nil (v : Value) : v.resolve? [] = some v := rfl

theorem resolve?_append (v : Value) (p q : Path) :
    v.resolve? (p ++ q) = (v.resolve? p).bind (resolve? · q) := by
  induction p generalizing v with
  | nil => rfl
  | cons step rest ih =>
    simp only [List.cons_append, resolve?]
    cases v.step? step with
    | none => rfl
    | some w => exact ih w

end Value

/-! ## Equality of documents -/

/-- Integers are compared as integers and decimals as decimals (`0.0` is `-0.0`), never across. -/
def Number.same : Number → Number → Bool
  | .integer m, .integer n => m == n
  | .decimal x, .decimal y => x == y
  | _, _ => false

mutual
/-- **`Value.same`** -- equality of documents. -/
def Value.same : Value → Value → Bool
  | .null, .null => true
  | .bool a, .bool b => a == b
  | .number m, .number n => m.same n
  | .string s, .string t => s == t
  | .array xs, .array ys => sameItems xs ys
  | .object ms, .object ns => sameMembers ms ns
  | _, _ => false

/-- Elements are compared place by place. -/
def sameItems : List Value → List Value → Bool
  | [], [] => true
  | x :: xs, y :: ys => x.same y && sameItems xs ys
  | _, _ => false

/-- Members are compared place by place, keys and values. -/
def sameMembers : List (String × Value) → List (String × Value) → Bool
  | [], [] => true
  | (k, v) :: ms, (l, w) :: ns => k == l && v.same w && sameMembers ms ns
  | _, _ => false
end

end ChapterCheck.Json
