import BatchFetch.Decimal.Binary64
import BatchFetch.Entries

namespace BatchFetch

namespace Json

/-- A number is an integer of 64 bits, signed or unsigned, or a finite binary64 number. -/
inductive Number where
  | int (value : Int)
  | real (value : Binary64)
  deriving DecidableEq

/-- The integers that keep their exact value: those that fit into 64 bits with or without a sign. -/
def isWord (n : Int) : Bool :=
  -0x8000000000000000 ≤ n && n ≤ 0xFFFFFFFFFFFFFFFF

end Json

inductive Json where
  | null
  | bool (value : Bool)
  | num (value : Json.Number)
  | str (value : String)
  | arr (items : List Json)
  | obj (members : List (String × Json))
  deriving Inhabited

namespace Json

mutual
/-- Equality of values is decided member by member. -/
def decEq : (a b : Json) → Decidable (a = b)
  | null, null => isTrue rfl
  | bool a, bool b => decidable_of_iff (a = b) (by simp)
  | num a, num b => decidable_of_iff (a = b) (by simp)
  | str a, str b => decidable_of_iff (a = b) (by simp)
  | arr a, arr b => @decidable_of_iff _ (a = b) (by simp) (decEqItems a b)
  | obj a, obj b => @decidable_of_iff _ (a = b) (by simp) (decEqMembers a b)
  | null, bool _ | null, num _ | null, str _ | null, arr _ | null, obj _
  | bool _, null | bool _, num _ | bool _, str _ | bool _, arr _ | bool _, obj _
  | num _, null | num _, bool _ | num _, str _ | num _, arr _ | num _, obj _
  | str _, null | str _, bool _ | str _, num _ | str _, arr _ | str _, obj _
  | arr _, null | arr _, bool _ | arr _, num _ | arr _, str _ | arr _, obj _
  | obj _, null | obj _, bool _ | obj _, num _ | obj _, str _ | obj _, arr _ =>
    isFalse (by simp)

def decEqItems : (a b : List Json) → Decidable (a = b)
  | [], [] => isTrue rfl
  | [], _ :: _ | _ :: _, [] => isFalse (by simp)
  | x :: a, y :: b =>
    have := decEq x y
    have := decEqItems a b
    decidable_of_iff (x = y ∧ a = b) (by simp)

def decEqMembers : (a b : List (String × Json)) → Decidable (a = b)
  | [], [] => isTrue rfl
  | [], _ :: _ | _ :: _, [] => isFalse (by simp)
  | (k, x) :: a, (l, y) :: b =>
    have := decEq x y
    have := decEqMembers a b
    decidable_of_iff (k = l ∧ x = y ∧ a = b) (by simp [and_assoc])
end

instance : DecidableEq Json := decEq

mutual
/-- Whether two values are the same where the two zeros of binary64 count as one number. -/
def same : Json → Json → Bool
  | num (.real a), num (.real b) => a = b || (a.magnitude == 0 && b.magnitude == 0)
  | arr a, arr b => sameItems a b
  | obj a, obj b => sameMembers a b
  | a, b => a = b

def sameItems : List Json → List Json → Bool
  | [], [] => true
  | x :: a, y :: b => same x y && sameItems a b
  | _, _ => false

def sameMembers : List (String × Json) → List (String × Json) → Bool
  | [], [] => true
  | (k, x) :: a, (l, y) :: b => k == l && same x y && sameMembers a b
  | _, _ => false
end

/-- The object with the given members; of two under one key the later counts. -/
def ofMembers (members : List (String × Json)) : Json :=
  obj (members.foldl (fun acc (key, value) => Entries.insert key value acc) [])

end Json
end BatchFetch
