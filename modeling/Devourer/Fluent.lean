import Mathlib.Data.Int.Notation
import Mathlib.Data.Rat.Init

/-! # Messages for the log -/

namespace Devourer

/-- A value set in a `fluent::Message`. -/
inductive Value where
  | text (value : String)
  | int (value : ℤ)
  | real (value : ℚ)
  deriving DecidableEq

/-- `fluent::Message`: its tag, its time when one was set, and its fields in the
order in which they were set. -/
structure Message where
  tag : String
  ts : Option ℤ
  fields : List (String × Value)
  deriving DecidableEq

namespace Message

/-- `retain_message`. -/
def retain (tag : String) : Message := ⟨tag, none, []⟩

def setTs (ts : ℤ) (msg : Message) : Message := { msg with ts := some ts }

def set (name : String) (value : Value) (msg : Message) : Message :=
  { msg with fields := msg.fields ++ [(name, value)] }

/-- Set a name unless it is empty. -/
def setName (name value : String) (msg : Message) : Message :=
  if value = "" then msg else msg.set name (.text value)

/-- The message without the fields of the given names. -/
def without (names : List String) (msg : Message) : Message :=
  { msg with fields := msg.fields.filter fun field => field.1 ∉ names }

/-- The value set under the name. -/
def field (name : String) (msg : Message) : Option Value :=
  (msg.fields.find? fun field => field.1 = name).map Prod.snd

/-- What `setName` sets for a name. -/
def nameValue (value : String) : Option Value := if value = "" then none else some (.text value)

variable {names : List String} {name : String}

@[simp] theorem head_setTs (ts : ℤ) (msg : Message) : (msg.setTs ts).tag = msg.tag := rfl

@[simp] theorem head_set (value : Value) (msg : Message) :
    (msg.set name value).tag = msg.tag ∧ (msg.set name value).ts = msg.ts := ⟨rfl, rfl⟩

@[simp] theorem head_setName (value : String) (msg : Message) :
    (msg.setName name value).tag = msg.tag ∧ (msg.setName name value).ts = msg.ts := by
  unfold setName
  split
  · exact ⟨rfl, rfl⟩
  · exact ⟨rfl, rfl⟩

@[simp] theorem field_retain (tag : String) : (retain tag).field name = none := rfl

@[simp] theorem field_setTs (ts : ℤ) (msg : Message) :
    (msg.setTs ts).field name = msg.field name := rfl

@[simp] theorem field_set (other : String) (value : Value) (msg : Message) :
    (msg.set other value).field name =
      (msg.field name).or (if other = name then some value else none) := by
  unfold field set
  rw [List.find?_append, Option.map_or]
  by_cases same : other = name <;> simp [same]

@[simp] theorem field_setName (other value : String) (msg : Message) :
    (msg.setName other value).field name =
      (msg.field name).or (if other = name then nameValue value else none) := by
  unfold setName nameValue
  by_cases empty : value = "" <;> simp [empty]

@[simp] theorem setName_empty (name : String) (msg : Message) : msg.setName name "" = msg := by
  unfold setName
  rw [if_pos rfl]

@[simp] theorem without_retain (tag : String) : (retain tag).without names = retain tag := rfl

@[simp] theorem without_setTs (ts : ℤ) (msg : Message) :
    (msg.setTs ts).without names = (msg.without names).setTs ts := rfl

theorem without_set_of_not_mem (kept : name ∉ names) (value : Value) (msg : Message) :
    (msg.set name value).without names = (msg.without names).set name value := by
  simp only [without, set, List.filter_append, List.filter_cons, kept, not_false_eq_true,
    decide_true, ↓reduceIte, List.filter_nil]

theorem without_set_of_mem (dropped : name ∈ names) (value : Value) (msg : Message) :
    (msg.set name value).without names = msg.without names := by
  simp only [without, set, List.filter_append, List.filter_cons, dropped, not_true_eq_false,
    decide_false, Bool.false_eq_true, ↓reduceIte, List.filter_nil, List.append_nil]

theorem without_setName (dropped : name ∈ names) (value : String) (msg : Message) :
    (msg.setName name value).without names = msg.without names := by
  unfold setName
  split
  · rfl
  · exact without_set_of_mem dropped _ msg

end Message

end Devourer
