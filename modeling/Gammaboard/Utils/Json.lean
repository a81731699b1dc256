import Gammaboard.Lib.OrdMap
import Mathlib.Algebra.Order.Ring.Nat
import Mathlib.Data.String.Basic
import Mathlib.Tactic.Common

/-!
# JSON values

`serde_json::Value` as a tree. A number keeps whether it is an integer; floats are finite. An
object is a map by ascending key, as that of the crate.
-/

namespace Gammaboard.Utils

open Gammaboard.Lib

/-- `serde_json::Number` -/
inductive Number (F : Type) where
  | posInt (n : UInt64)
  /-- A negative integer. -/
  | negInt (n : Int64)
  | float (x : F)
deriving DecidableEq

inductive Json (F : Type) where
  | null
  | bool (b : Bool)
  | number (n : Number F)
  | string (s : String)
  | array (items : List (Json F))
  | object (entries : List (String × Json F))

namespace Json

variable {F : Type}

/-- `value.get(key)` of an object. -/
def get? (value : Json F) (key : String) : Option (Json F) :=
  match value with
  | object entries => OrdMap.get key entries
  | _ => none

/-- `value[key]` -/
def get (value : Json F) (key : String) : Json F := (value.get? key).getD null

/-- `value.pointer`, for a path of keys none of which is the index of an array. -/
def pointer (value : Json F) (path : List String) : Option (Json F) :=
  path.foldlM get? value

def asStr : Json F → Option String
  | string s => some s
  | _ => none

def asObject : Json F → Option (OrdMap String (Json F))
  | object entries => some entries
  | _ => none

def asArray : Json F → Option (List (Json F))
  | array items => some items
  | _ => none

def asI64 : Json F → Option Int
  | number (.posInt n) => if n.toNat < 2 ^ 63 then some n.toNat else none
  | number (.negInt n) => some n.toInt
  | _ => none

def asU64 : Json F → Option Nat
  | number (.posInt n) => some n.toNat
  | _ => none

/-- The value of a number. -/
def asF64 [NatCast F] [IntCast F] : Json F → Option F
  | number (.posInt n) => some (n.toNat : F)
  | number (.negInt n) => some (n.toInt : F)
  | number (.float x) => some x
  | _ => none

/-! ## Equality -/

mutual

def decEq [DecidableEq F] : (a b : Json F) → Decidable (a = b)
  | null, null => isTrue rfl
  | bool a, bool b => decidable_of_iff (a = b) (by simp)
  | number a, number b => decidable_of_iff (a = b) (by simp)
  | string a, string b => decidable_of_iff (a = b) (by simp)
  | array a, array b => @decidable_of_iff _ (a = b) (by simp) (decEqItems a b)
  | object a, object b => @decidable_of_iff _ (a = b) (by simp) (decEqEntries a b)
  | null, bool _ | null, number _ | null, string _ | null, array _ | null, object _
  | bool _, null | bool _, number _ | bool _, string _ | bool _, array _ | bool _, object _
  | number _, null | number _, bool _ | number _, string _ | number _, array _
  | number _, object _ | string _, null | string _, bool _ | string _, number _
  | string _, array _ | string _, object _ | array _, null | array _, bool _ | array _, number _
  | array _, string _ | array _, object _ | object _, null | object _, bool _
  | object _, number _ | object _, string _ | object _, array _ => isFalse (by simp)

def decEqItems [DecidableEq F] : (a b : List (Json F)) → Decidable (a = b)
  | [], [] => isTrue rfl
  | [], _ :: _ | _ :: _, [] => isFalse (by simp)
  | a :: as, b :: bs =>
    @decidable_of_iff _ (a = b ∧ as = bs) (by simp)
      (@instDecidableAnd _ _ (decEq a b) (decEqItems as bs))

def decEqEntries [DecidableEq F] : (a b : List (String × Json F)) → Decidable (a = b)
  | [], [] => isTrue rfl
  | [], _ :: _ | _ :: _, [] => isFalse (by simp)
  | (k, a) :: as, (l, b) :: bs =>
    @decidable_of_iff _ (k = l ∧ a = b ∧ as = bs) (by simp [and_assoc])
      (@instDecidableAnd _ _ (inferInstanceAs (Decidable (k = l)))
        (@instDecidableAnd _ _ (decEq a b) (decEqEntries as bs)))

end

instance [DecidableEq F] : DecidableEq (Json F) := decEq

end Json

end Gammaboard.Utils
