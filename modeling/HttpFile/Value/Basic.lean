import HttpFile.Number.Shortest
import HttpFile.Text.Quoted
import HttpFile.Text.Surrogate
import HttpFile.Value.Calendar

/-!
# `HttpFile.Value.Basic` — plain data

Bodies, specifications, collections and configurations are plain data. Mappings keep the order in
which their keys first came; a key that comes again replaces the value. Most data are trees; data
that contain themselves are written as a table of containers with links between them.

## Contents
- **The type.** `Value`.
- **Containers.** `Value.mapParts`, `Value.opened`: data with their parts at hand.
- **Texts.** `Value.ofWide`, `Value.string?`.
- **Keys.** `Value.sameKey`: numbers are the same key when they are the same number, and what is not
  a number is the same key as itself. `Value.isKey`: what may be a key.
- **Mappings.** `Value.put`, `Value.lookup`, `Value.get?`, and how they fit: `Value.lookup_put`.
- **Truth.** `Value.isTruthy`: what counts as present.
-/

namespace HttpFile

open Text

/-- Plain data. -/
inductive Value where
  | null
  | bool (b : Bool)
  | int (n : Int)
  | float (x : Binary64)
  | str (t : Text)
  /-- A text with halves of characters. -/
  | halves (w : Wide)
  | date (d : Date)
  | moment (m : Moment)
  | bytes (bs : List UInt8)
  | list (items : List Value)
  | tuple (items : List Value)
  | set (items : List Value)
  | dict (entries : List (Value × Value))
  /-- Data that contain themselves: containers by number, and the number of the one that is meant.
      -/
  | cyclic (table : List (Nat × Value)) (number : Nat)
  /-- A part of a container in such a table: the container with the number. -/
  | link (number : Nat)
deriving Repr, Inhabited

namespace Value

/-! ## Containers -/

/-- A container with each of its parts changed; keys stay. -/
def mapParts (f : Value → Value) : Value → Value
  | .list items => .list (items.map f)
  | .tuple items => .tuple (items.map f)
  | .set items => .set (items.map f)
  | .dict entries => .dict (entries.map fun (k, v) => (k, f v))
  | v => v

/-- What a link stands for; other data stand for themselves. -/
def followLink (target : Nat → Value) : Value → Value
  | .link n => target n
  | v => v

/-- The same data, with its parts at hand: a container out of a table of containers has, where
    it has links, the containers that they lead to. -/
def opened : Value → Value
  | .cyclic table n =>
    ((table.lookup n).getD .null).mapParts (followLink fun k => .cyclic table k)
  | v => v

/-! ## Texts -/

/-- A wide text as data: a text if it is one. -/
def ofWide (w : Wide) : Value :=
  match Word.text? w with
  | some t => .str t
  | none => .halves w

/-- The text of data that are one. -/
def string? : Value → Option Text
  | .str t => some t
  | .halves w => some (Wide.readable w)
  | _ => none

/-! ## Keys -/

/-- A truth value or an integer as an integer. -/
def integer? : Value → Option Int
  | .bool b => some (if b then 1 else 0)
  | .int n => some n
  | .float x => x.toInt?
  | _ => none

/-- The moment in seconds and microseconds from a fixed day on, in universal time. -/
def instant (m : Moment) (offset : Int) : Int × Nat :=
  let y : Int := m.date.year - 1
  let days : Int := y * 365 + y / 4 - y / 100 + y / 400 +
    (List.range (m.date.month - 1)).foldl (fun n k => n + daysInMonth m.date.year (k + 1)) 0 +
    m.date.day
  (days * 86400 + m.hour * 3600 + m.minute * 60 + m.second - offset, m.microsecond)

mutual
/-- Whether two values are the same key. Truth values count as numbers, tuples are compared part by
    part, and of other data with parts nothing is a key. -/
def sameKey : Value → Value → Bool
  | .null, .null => true
  | .str a, .str b => a == b
  | .halves a, .halves b => a = b
  | .date a, .date b => a == b
  | .bytes a, .bytes b => a == b
  | .moment a, .moment b =>
    match a.offset, b.offset with
    | some x, some y => instant a x == instant b y
    | none, none => a == b
    | _, _ => false
  | .float x, .float y => x.same y
  | .tuple a, .tuple b => sameKeys a b
  | a, b =>
    match a.integer?, b.integer? with
    | some m, some n => m == n
    | _, _ => false

/-- Whether two lists have the same keys at the same places. -/
def sameKeys : List Value → List Value → Bool
  | [], [] => true
  | a :: as, b :: bs => sameKey a b && sameKeys as bs
  | _, _ => false
end

mutual
/-- Whether a value may be a key. A tuple may if all its parts may. -/
def isKey : Value → Bool
  | .list _ | .set _ | .dict _ | .cyclic _ _ | .link _ => false
  | .tuple items => areKeys items
  | _ => true

/-- Whether all of several values may be keys. -/
def areKeys : List Value → Bool
  | [] => true
  | v :: rest => isKey v && areKeys rest
end

/-! ## Mappings -/

/-- Give a key a value: at the place of an equal key if there is one, else at the end. -/
def put (entries : List (Value × Value)) (key value : Value) : List (Value × Value) :=
  match entries with
  | [] => [(key, value)]
  | (k, v) :: rest => if sameKey k key then (k, value) :: rest else (k, v) :: put rest key value

/-- The value of a text key. -/
def lookup (entries : List (Value × Value)) (key : Text) : Option Value :=
  (entries.find? fun (k, _) => sameKey k (.str key)).map (·.2)

/-- The value of a text key in a mapping; other data have no keys. -/
def get? (v : Value) (key : Text) : Option Value :=
  match v.opened with
  | .dict entries => lookup entries key
  | _ => none

theorem sameKey_str {k : Value} {t : Text} : sameKey k (.str t) = true ↔ k = .str t := by
  cases k with
  | str u => simp [sameKey]
  | _ => simp [sameKey, integer?]

theorem lookup_cons (k v : Value) (rest : List (Value × Value)) (key : Text) :
    lookup ((k, v) :: rest) key = if sameKey k (.str key) then some v else lookup rest key := by
  unfold lookup
  by_cases h : sameKey k (.str key) = true <;> simp [h]

/-- A text key that is given a value has it, and all other keys keep theirs. -/
theorem lookup_put (entries : List (Value × Value)) (key other : Text) (value : Value) :
    lookup (put entries (.str key) value) other =
      if other = key then some value else lookup entries other := by
  induction entries with
  | nil =>
      by_cases h : other = key <;> simp [put, lookup_cons, sameKey_str, h, Ne.symm]
  | cons entry rest ih =>
      obtain ⟨k, v⟩ := entry
      rw [put]
      split
      · next hk =>
          obtain rfl := sameKey_str.mp hk
          by_cases h : other = key <;> simp [lookup_cons, sameKey_str, h, Ne.symm]
      · next hk =>
          rw [lookup_cons, lookup_cons, ih]
          by_cases h : other = key
          · subst h
            rw [if_neg hk, if_pos rfl, if_pos rfl]
          · rw [if_neg h, if_neg h]

/-! ## Truth -/

/-- What counts as present: anything but nothing, falsehood, nought and what has no parts. -/
def isTruthy : Value → Bool
  | .null => false
  | .bool b => b
  | .int n => n != 0
  | .float x => !x.isZero
  | .str t => !t.isEmpty
  | .bytes bs => !bs.isEmpty
  | .list items | .tuple items | .set items => !items.isEmpty
  | .dict entries => !entries.isEmpty
  | .halves _ | .date _ | .moment _ | .cyclic _ _ | .link _ => true

/-- A value if it counts as present. -/
def ifTruthy (v : Option Value) : Option Value := v.filter isTruthy

end Value

end HttpFile
