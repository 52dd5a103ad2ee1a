import XianAbci.Lib.Sha256

/-!
# Runtime values

`Value` is what a state key, a patch, a genesis entry or a transaction effect can hold: the Python
values the node moves around. `Json` is what the JSON encoder sees after normalisation.

Python strings are `String`s. A float is carried as its `repr`. A wrapper set is carried as the
object its codec writes for it (the codec is lossless), an exception as its text, and any other
object as its type name, which is all the encoder's error says about it.
-/

namespace XianAbci

/-- A raised Python exception: its class and its message. -/
inductive PyErr
  | typeError (message : String)
  | valueError (message : String)
  | assertionError (message : String)
  | keyError (key : String)
  | attributeError (message : String)
  | runtimeError (message : String)
  | fileNotFoundError (message : String)
  | transactionException (message : String)
  | other (message : String)
deriving DecidableEq, Repr

/-- A JSON document as Python's `json` module writes it. -/
inductive Json
  | null
  | bool (b : Bool)
  | int (i : Int)
  | float (repr : String)
  | str (s : String)
  | arr (items : List Json)
  | obj (entries : List (String × Json))

namespace Json

mutual
def beq : Json → Json → Bool
  | null, null => true
  | bool a, bool b => a == b
  | int a, int b => a == b
  | float a, float b => a == b
  | str a, str b => a == b
  | arr a, arr b => beqList a b
  | obj a, obj b => beqEntries a b
  | _, _ => false

def beqList : List Json → List Json → Bool
  | [], [] => true
  | a :: as, b :: bs => beq a b && beqList as bs
  | _, _ => false

def beqEntries : List (String × Json) → List (String × Json) → Bool
  | [], [] => true
  | (k, a) :: as, (l, b) :: bs => k == l && beq a b && beqEntries as bs
  | _, _ => false
end

theorem beq_iff : ∀ a b : Json, beq a b = true ↔ a = b := by
  refine Json.rec (motive_1 := fun a => ∀ b, beq a b = true ↔ a = b)
    (motive_2 := fun as => ∀ bs, beqList as bs = true ↔ as = bs)
    (motive_3 := fun as => ∀ bs, beqEntries as bs = true ↔ as = bs)
    (motive_4 := fun p => ∀ b, beq p.2 b = true ↔ p.2 = b)
    ?null ?bool ?int ?float ?str ?arr ?obj ?nil ?cons ?fnil ?fcons ?mk
  case arr => intro as ih b; cases b <;> simp [beq, ih]
  case obj => intro as ih b; cases b <;> simp [beq, ih]
  case nil => intro bs; cases bs <;> simp [beqList]
  case cons => intro a as iha ih bs; cases bs <;> simp [beqList, iha, ih]
  case fnil => intro bs; cases bs <;> simp [beqEntries]
  case fcons =>
    rintro ⟨k, a⟩ as iha ih bs
    cases bs with
    | nil => simp [beqEntries]
    | cons q bs => obtain ⟨l, b⟩ := q; simp [beqEntries, iha, ih]
  case mk => intro k a ih; exact ih
  all_goals intros; rename_i b; cases b <;> simp [beq]

instance : DecidableEq Json := fun a b => decidable_of_iff _ (beq_iff a b)

end Json

/-- `ContractingDecimal`: a decimal with thirty fractional digits, as a number of `10⁻³⁰` units. -/
structure ContractingDecimal where
  units : Int
deriving DecidableEq, Repr

/-- A calendar time, the field values of Python's `datetime` (and of the wrapper `Datetime`). -/
structure Datetime where
  (year month day hour minute second microsecond : Nat)
deriving DecidableEq, Repr

/-- A Python value. `pyDecimal units scale` is the `decimal.Decimal` `units · 10⁻ˢᶜᵃˡᵉ`. -/
inductive Value
  | none
  | bool (b : Bool)
  | int (i : Int)
  | float (repr : String)
  | str (s : String)
  | decimal (d : ContractingDecimal)
  | pyDecimal (units : Int) (scale : Nat)
  | bytes (b : Bytes)
  | datetime (t : Datetime)
  | pyDatetime (t : Datetime)
  | set (encoded : Json)
  | exception (text : String)
  | object (typeName : String)
  | tuple (items : List Value)
  | list (items : List Value)
  | dict (entries : List (String × Value))

namespace Value

mutual
def beq : Value → Value → Bool
  | none, none => true
  | bool a, bool b => a == b
  | int a, int b => a == b
  | float a, float b => a == b
  | str a, str b => a == b
  | decimal a, decimal b => a == b
  | pyDecimal a s, pyDecimal b t => a == b && s == t
  | bytes a, bytes b => a == b
  | datetime a, datetime b => a == b
  | pyDatetime a, pyDatetime b => a == b
  | set a, set b => a == b
  | exception a, exception b => a == b
  | object a, object b => a == b
  | tuple a, tuple b => beqList a b
  | list a, list b => beqList a b
  | dict a, dict b => beqEntries a b
  | _, _ => false

def beqList : List Value → List Value → Bool
  | [], [] => true
  | a :: as, b :: bs => beq a b && beqList as bs
  | _, _ => false

def beqEntries : List (String × Value) → List (String × Value) → Bool
  | [], [] => true
  | (k, a) :: as, (l, b) :: bs => k == l && beq a b && beqEntries as bs
  | _, _ => false
end

theorem beq_iff : ∀ a b : Value, beq a b = true ↔ a = b := by
  refine Value.rec (motive_1 := fun a => ∀ b, beq a b = true ↔ a = b)
    (motive_2 := fun as => ∀ bs, beqList as bs = true ↔ as = bs)
    (motive_3 := fun as => ∀ bs, beqEntries as bs = true ↔ as = bs)
    (motive_4 := fun p => ∀ b, beq p.2 b = true ↔ p.2 = b)
    ?none ?bool ?int ?float ?str ?decimal ?pyDecimal ?bytes ?datetime ?pyDatetime ?set ?exception
    ?object ?tuple ?list ?dict ?nil ?cons ?fnil ?fcons ?mk
  case tuple => intro as ih b; cases b <;> simp [beq, ih]
  case list => intro as ih b; cases b <;> simp [beq, ih]
  case dict => intro as ih b; cases b <;> simp [beq, ih]
  case nil => intro bs; cases bs <;> simp [beqList]
  case cons => intro a as iha ih bs; cases bs <;> simp [beqList, iha, ih]
  case fnil => intro bs; cases bs <;> simp [beqEntries]
  case fcons =>
    rintro ⟨k, a⟩ as iha ih bs
    cases bs with
    | nil => simp [beqEntries]
    | cons q bs => obtain ⟨l, b⟩ := q; simp [beqEntries, iha, ih]
  case mk => intro k a ih; exact ih
  all_goals intros; rename_i b; cases b <;> simp [beq]

instance : DecidableEq Value := fun a b => decidable_of_iff _ (beq_iff a b)

instance : Inhabited Value := ⟨none⟩

/-- `value.get(key)` of a dict, `none` for an absent key. -/
def lookup (entries : List (String × Value)) (key : String) : Option Value := entries.lookup key

end Value

end XianAbci
