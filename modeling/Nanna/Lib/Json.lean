import Mathlib.Algebra.Ring.Nat
import Mathlib.Algebra.Ring.Int.Defs

/-!
# JSON values

Objects are kept as their member lists. `=` compares values as they are written and is decided by
structural recursion, so that a check on a value can be evaluated; `same` is the equality of the
parsed values, where the order of an object's members does not count and the two zeros are one.
-/

namespace Nanna.Lib

/-- A number, as the parser keeps it: an integer or the bits of a double. -/
inductive JsonNumber where
  | int (n : Int)
  | float (bits : BitVec 64)
deriving DecidableEq

inductive Json where
  | null
  | bool (b : Bool)
  | num (n : JsonNumber)
  | str (s : String)
  | arr (xs : List Json)
  | obj (kvs : List (String × Json))

namespace Json
/-- A property that holds of a list and of an object where it holds of what is directly in them. -/
@[elab_as_elim]
theorem induct {motive : Json → Prop} (null : motive null) (bool : ∀ b, motive (bool b)) (num : ∀ n, motive (num n))
    (str : ∀ s, motive (str s)) (arr : ∀ xs, (∀ x ∈ xs, motive x) → motive (arr xs))
    (obj : ∀ kvs, (∀ kv ∈ kvs, motive kv.2) → motive (obj kvs)) (j : Json) : motive j :=
  @Json.rec motive (fun xs => ∀ x ∈ xs, motive x) (fun kvs => ∀ kv ∈ kvs, motive kv.2) (fun kv => motive kv.2)
    null bool num str arr obj (fun _ h => absurd h List.not_mem_nil)
    (fun _ _ hx hxs => List.forall_mem_cons.mpr ⟨hx, hxs⟩) (fun _ h => absurd h List.not_mem_nil)
    (fun _ _ hkv hkvs => List.forall_mem_cons.mpr ⟨hkv, hkvs⟩) (fun _ _ hx => hx) j

mutual
def decEq : (a b : Json) → Decidable (a = b)
  | null, null => isTrue rfl
  | bool a, bool b => decidable_of_iff (a = b) ⟨congrArg bool, fun h => by cases h; rfl⟩
  | num a, num b => decidable_of_iff (a = b) ⟨congrArg num, fun h => by cases h; rfl⟩
  | str a, str b => decidable_of_iff (a = b) ⟨congrArg str, fun h => by cases h; rfl⟩
  | arr xs, arr ys =>
    match decEqList xs ys with
    | isTrue h => isTrue (congrArg arr h)
    | isFalse h => isFalse fun he => h (by cases he; rfl)
  | obj xs, obj ys =>
    match decEqMembers xs ys with
    | isTrue h => isTrue (congrArg obj h)
    | isFalse h => isFalse fun he => h (by cases he; rfl)
  | null, bool _ | null, num _ | null, str _ | null, arr _ | null, obj _ => isFalse nofun
  | bool _, null | bool _, num _ | bool _, str _ | bool _, arr _ | bool _, obj _ => isFalse nofun
  | num _, null | num _, bool _ | num _, str _ | num _, arr _ | num _, obj _ => isFalse nofun
  | str _, null | str _, bool _ | str _, num _ | str _, arr _ | str _, obj _ => isFalse nofun
  | arr _, null | arr _, bool _ | arr _, num _ | arr _, str _ | arr _, obj _ => isFalse nofun
  | obj _, null | obj _, bool _ | obj _, num _ | obj _, str _ | obj _, arr _ => isFalse nofun

def decEqList : (xs ys : List Json) → Decidable (xs = ys)
  | [], [] => isTrue rfl
  | [], _ :: _ | _ :: _, [] => isFalse nofun
  | x :: xs, y :: ys =>
    match decEq x y, decEqList xs ys with
    | isTrue h, isTrue hs => isTrue (by rw [h, hs])
    | isFalse h, _ => isFalse fun he => h (List.cons.inj he).1
    | _, isFalse hs => isFalse fun he => hs (List.cons.inj he).2

def decEqMembers : (xs ys : List (String × Json)) → Decidable (xs = ys)
  | [], [] => isTrue rfl
  | [], _ :: _ | _ :: _, [] => isFalse nofun
  | (k, x) :: xs, (l, y) :: ys =>
    match (inferInstance : Decidable (k = l)), decEq x y, decEqMembers xs ys with
    | isTrue hk, isTrue h, isTrue hs => isTrue (by rw [hk, h, hs])
    | isFalse hk, _, _ => isFalse fun he => hk (Prod.mk.inj (List.cons.inj he).1).1
    | _, isFalse h, _ => isFalse fun he => h (Prod.mk.inj (List.cons.inj he).1).2
    | _, _, isFalse hs => isFalse fun he => hs (List.cons.inj he).2
end
instance : DecidableEq Json := decEq

mutual
/-- Equality of parsed values. -/
def same : Json → Json → Bool
  | null, null => true
  | bool a, bool b => a = b
  | num (.int a), num (.int b) => a = b
  | num (.float a), num (.float b) => a = b || (a <<< 1 = 0 && b <<< 1 = 0)
  | str a, str b => a = b
  | arr xs, arr ys => sameList xs ys
  | obj xs, obj ys => xs.length = ys.length && sameMembers xs ys
  | _, _ => false

def sameList : List Json → List Json → Bool
  | [], [] => true
  | x :: xs, y :: ys => same x y && sameList xs ys
  | _, _ => false

/-- Every member of the first list has a counterpart in the second. -/
def sameMembers : List (String × Json) → List (String × Json) → Bool
  | [], _ => true
  | (k, x) :: xs, ys =>
    (match ys.find? (·.1 = k) with
      | some (_, y) => same x y
      | none => false) && sameMembers xs ys
end

/-- Equality of optional values. -/
def sameOption : Option Json → Option Json → Bool
  | none, none => true
  | some a, some b => same a b
  | _, _ => false

/-- `Value::get`: the member of an object under a key. -/
def get (key : String) : Json → Option Json
  | obj kvs => kvs.lookup key
  | _ => none

def asStr : Json → Option String
  | str s => some s
  | _ => none

@[simp] theorem asStr_str (s : String) : asStr (str s) = some s := rfl

def asBool : Json → Option Bool
  | bool b => some b
  | _ => none

def asArray : Json → Option (List Json)
  | arr xs => some xs
  | _ => none

def asU64 : Json → Option Nat
  | num (.int n) => if 0 ≤ n ∧ n < 2 ^ 64 then some n.toNat else none
  | _ => none

/-- `&value[key]`: null where there is none. -/
def field (key : String) (j : Json) : Json := (j.get key).getD null

def isObject : Json → Bool
  | obj _ => true
  | _ => false

example : same (obj [("a", null), ("b", bool true)]) (obj [("b", bool true), ("a", null)]) := by
  decide
end Json

end Nanna.Lib
