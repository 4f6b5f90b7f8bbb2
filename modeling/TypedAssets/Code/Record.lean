import TypedAssets.Code.EvalError

/-!
# Fields of a value

Field access wants a record. An update is more lenient: it starts from a copy of a value's fields,
and besides a record it can copy any value with items that are pairs of a key and a value, each of
which sets a field. The items of a text are its characters, and those of a record its names. Records
have texts as keys only, so the copy leaves out a pair whose key is no text, which no code could
name; a key must not hold a list or a record, though.

`copiedFields_record` says that a record is copied as it is, `copiedFields_pairs` that a list of
named pairs is copied as the record of these pairs.
-/

namespace TypedAssets.Code

namespace Value

/-- The fields of a record. -/
def fields : Value → Except EvalError (Fields Value)
  | .record fs => .ok fs
  | v => .error (.notRecord v)

/-- A field of a record. -/
def field (v : Value) (x : String) : Except EvalError Value := do
  ((← v.fields).get? x).elim (.error (.missingField x)) .ok

/-- The items of a value that has items. -/
def items? : Value → Option (List Value)
  | .text s => some (s.toList.map fun c => .text c.toString)
  | .list vs | .tuple vs => some vs
  | .record fs => some (fs.map fun f => .text f.1)
  | .null | .bool _ | .int _ | .float _ | .ctor .. => none

mutual

/-- Whether a value can be a key: it holds no list and no record. -/
def isKey : Value → Bool
  | .null | .bool _ | .int _ | .float _ | .text _ => true
  | .ctor _ vs | .tuple vs => areKeys vs
  | .list _ | .record _ => false
termination_by structural v => v

def areKeys : List Value → Bool
  | [] => true
  | v :: vs => v.isKey && areKeys vs
termination_by structural vs => vs

end

/-- Sets the field that a pair of a key and a value names. A key that is no text names none, and its pair is left
out of the copy. -/
def setKeyed (fs : Fields Value) (key value : Value) : Except EvalError (Fields Value) :=
  match key with
  | .text x => .ok (fs.set x value)
  | key => if key.isKey then .ok fs else .error (.notKey key)

/-- Sets the field of an item that is a pair; `i` is the place of the item. -/
def setPair (fs : Fields Value) (i : Nat) (item : Value) : Except EvalError (Fields Value) :=
  match item.items? with
  | none => .error (.notPair i item)
  | some [key, value] => setKeyed fs key value
  | some items => .error (.pairLength i items.length)

/-- Sets the fields of items that are pairs, from the item at place `i` on. -/
def setPairs (fs : Fields Value) (i : Nat) : List Value → Except EvalError (Fields Value)
  | [] => .ok fs
  | item :: items => do setPairs (← setPair fs i item) (i + 1) items

/-- The copy of a value's fields that an update starts from. -/
def copiedFields : Value → Except EvalError (Fields Value)
  | .record fs => .ok fs
  | v => v.items?.elim (.error (.notRecord v)) (setPairs [] 0)

@[simp] theorem copiedFields_record (fs : Fields Value) : (record fs).copiedFields = .ok fs := rfl

theorem setPairs_pairs (fs : Fields Value) (i : Nat) (gs : List (String × Value)) :
    setPairs fs i (gs.map fun g => .tuple [.text g.1, g.2]) = .ok (fs.merge gs) := by
  induction gs generalizing fs i with
  | nil => rfl
  | cons g gs ih => exact ih (fs.set g.1 g.2) (i + 1)

theorem copiedFields_pairs (gs : List (String × Value)) :
    (list (gs.map fun g => .tuple [.text g.1, g.2])).copiedFields = .ok (Fields.ofList gs) :=
  setPairs_pairs [] 0 gs

end Value

end TypedAssets.Code
