import BranchForm.Value.Agreement

/-!
# Members of records

A record has its members in the order they were written, and no two under names that agree.

* `Members.get?`, `Members.getD` and `Members.has` look a member up;
* `Members.put` replaces a member in its place or appends it, so that a record written member by
  member has each name once; `Members.ofPairs` writes a record from pairs.
-/

namespace BranchForm.Members

/-- The member of a name. -/
def get? (ms : Members) (name : Value) : Option Value :=
  (ms.find? fun (k, _) => k.agrees name).map (·.2)

/-- The member of a name, or a value in its stead. -/
def getD (ms : Members) (name alternative : Value) : Value := (get? ms name).getD alternative

/-- The member of a name, the empty value if there is none. -/
def getOrNull (ms : Members) (name : Value) : Value := getD ms name .null

/-- Whether there is a member of a name. -/
def has (ms : Members) (name : Value) : Bool := (get? ms name).isSome

/-- The names, in the order of the members. -/
def names (ms : Members) : List Value := ms.map (·.1)

/-- The record with a member set: in its old place and under its old name if the name is taken, else
at the end. -/
def put : Members → Value → Value → Members
  | [], name, v => [(name, v)]
  | (k, w) :: ms, name, v => if k.agrees name then (k, v) :: ms else (k, w) :: put ms name v

/-- The members of a second record set over those of a first. -/
def putAll (ms extra : Members) : Members := extra.foldl (fun acc (k, v) => put acc k v) ms

/-- The record without a member. -/
def erase (ms : Members) (name : Value) : Members := ms.filter fun (k, _) => !k.agrees name

/-- A record with each name once: the place is that of the first occurrence, the value that of the
last. -/
def ofPairs (pairs : List (Value × Value)) : Members := putAll [] pairs

end BranchForm.Members
