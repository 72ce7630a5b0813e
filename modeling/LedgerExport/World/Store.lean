import LedgerExport.Program
import LedgerExport.Text.Affix
import Std.Data.ExtTreeMap

/-!
# An object store in memory

A store that holds its objects in memory and fails where it is told to. It keeps a record of the
copies and deletions that it was asked for.
-/

namespace LedgerExport.World

open Text

/-- The order of addresses: by bucket, then by key. -/
abbrev byAddress : String × String → String × String → Ordering :=
  compareLex (compareOn (·.1)) (compareOn (·.2))

/-- Addresses that compare as equal are equal. -/
instance : Std.LawfulEqCmp byAddress where
  eq_of_compare {a b} h := by
    simp only [byAddress, compareLex_eq_eq, compareOn] at h
    exact Prod.ext (Std.LawfulEqOrd.eq_of_compare h.1) (Std.LawfulEqOrd.eq_of_compare h.2)

/-- The objects of all buckets, by bucket and key. -/
abbrev Objects := Std.ExtTreeMap (String × String) ByteArray byAddress

/-- A call that can be told to fail. -/
inductive FaultPoint where
  | list | get | copy | delete | probe
deriving DecidableEq, Repr

/-- The operation that a failing call names. -/
def FaultPoint.operation : FaultPoint → StoreOperation
  | list => .list
  | get => .get
  | copy => .copy
  | delete => .delete
  | probe => .head

/-- What the store is told to do wrong. -/
structure Faults where
  /-- The calls that fail, with the key that they are about: the prefix of a listing, the source of
  a copy. -/
  failing : List (FaultPoint × String)
  /-- The destinations to which copies are said to be made but are not. -/
  dropped : List String
deriving DecidableEq, Repr

/-- Nothing goes wrong. -/
def Faults.none : Faults := ⟨[], []⟩

/-- A change that the store was asked for. -/
inductive Change where
  /-- A copy of the object with this key. -/
  | copy (key : String)
  /-- A deletion of the object with this key. -/
  | delete (key : String)
deriving DecidableEq, Repr

/-- The store. -/
structure Store where
  /-- Its objects. -/
  objects : Objects
  /-- What it does wrong. -/
  faults : Faults
  /-- The changes that it was asked for, in order, made or not. -/
  changes : List Change

namespace Store

/-- A store without objects. -/
def empty : Store := ⟨∅, .none, []⟩

/-- The body of an object. -/
def find? (m : Store) (bucket key : String) : Option ByteArray := m.objects[(bucket, key)]?

/-- The store with an object. -/
def put (m : Store) (bucket key : String) (body : ByteArray) : Store :=
  { m with objects := m.objects.insert (bucket, key) body }

/-- The store without an object. -/
def remove (m : Store) (bucket key : String) : Store :=
  { m with objects := m.objects.erase (bucket, key) }

/-- The store that has been asked for one more change. -/
def noting (m : Store) (c : Change) : Store := { m with changes := m.changes ++ [c] }

/-- The keys of a bucket, in order. -/
def keys (m : Store) (bucket : String) : List String :=
  (m.objects.keys.filter (·.1 = bucket)).map (·.2)

/-- A listing with this prefix and this delimiter names the key. -/
def lists (keyPrefix : String) (delimiter : Option String) (key : String) : Bool :=
  match dropPrefix? keyPrefix.toList key.toList with
  | none => false
  | some rest => delimiter.all fun d => !occursIn d.toList rest

/-- The objects of a bucket that a listing names, in order. -/
def listing (m : Store) (bucket keyPrefix : String) (delimiter : Option String) :
    List ObjectSummary :=
  (m.objects.toList.filter fun o => o.1.1 = bucket && lists keyPrefix delimiter o.1.2).map
    fun o => ⟨o.1.2, o.2.size⟩

/-- The failure of a call that the store is told to fail. -/
def fault? (m : Store) (point : FaultPoint) (bucket key : String) : Option StoreFailure :=
  if (point, key) ∈ m.faults.failing then
    some (.request point.operation bucket key "injected failure")
  else none

/-- Lists the objects of a bucket. -/
def list (bucket keyPrefix : String) (delimiter : Option String) (m : Store) :
    Except StoreFailure (List ObjectSummary) × Store :=
  match m.fault? .list bucket keyPrefix with
  | some e => (.error e, m)
  | none => (.ok (m.listing bucket keyPrefix delimiter), m)

/-- Reads an object. -/
def get (bucket key : String) (m : Store) : Except StoreFailure ByteArray × Store :=
  match m.fault? .get bucket key, m.find? bucket key with
  | some e, _ => (.error e, m)
  | none, none => (.error (.notFound bucket key), m)
  | none, some body => (.ok body, m)

/-- Copies an object. -/
def copy (bucket source destination : String) (m : Store) : Except StoreFailure Unit × Store :=
  match m.fault? .copy bucket source, m.find? bucket source with
  | some e, _ => (.error e, m.noting (.copy source))
  | none, none => (.error (.notFound bucket source), m.noting (.copy source))
  | none, some body =>
    if destination ∈ m.faults.dropped then (.ok (), m.noting (.copy source))
    else (.ok (), (m.put bucket destination body).noting (.copy source))

/-- Deletes an object; one that is not there is deleted as well. -/
def delete (bucket key : String) (m : Store) : Except StoreFailure Unit × Store :=
  match m.fault? .delete bucket key with
  | some e => (.error e, m.noting (.delete key))
  | none => (.ok (), (m.remove bucket key).noting (.delete key))

/-- Says whether there is an object. -/
def probe (bucket key : String) (m : Store) : Except StoreFailure Bool × Store :=
  match m.fault? .probe bucket key with
  | some e => (.error e, m)
  | none => (.ok (m.find? bucket key).isSome, m)

end Store

end LedgerExport.World
