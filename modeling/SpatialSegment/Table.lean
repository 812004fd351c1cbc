import SpatialSegment.Error
import SpatialSegment.Text.Split

/-!
# Names of tables

A table belongs to a group and may be divided into numbered regions. Group and table are parts of a
path, so they are not empty, hold no separator and no slash, and are not the parent directory; that
is part of the type. The text of a name puts a separator between its two or three parts.
-/

namespace SpatialSegment

/-- Whether a text may name a group or a table. -/
def isNamePart (part : String) : Bool :=
  part.toList ≠ [] ∧ !part.toList.contains '_' ∧ !part.toList.contains '/' ∧
    !part.toList.contains '\\' ∧ part.toList ≠ ['.', '.']

structure TableName where
  group : String
  table : String
  region : Option UInt64
  group_ok : isNamePart group = true
  table_ok : isNamePart table = true
deriving DecidableEq

namespace TableName

/-- The name with the given parts; the group is checked first. -/
def ofParts (group table : String) (region : Option UInt64) : Except ArgumentFault TableName :=
  if hg : isNamePart group = true then
    if ht : isNamePart table = true then .ok ⟨group, table, region, hg, ht⟩
    else .error (.namePart "table" table)
  else .error (.namePart "distribution group" group)

/-- Reads `group_table` or `group_table_region`. -/
def ofText (s : String) : Except ArgumentFault TableName :=
  match (Text.splitOn '_' s.toList).map String.ofList with
  | [group, table] => ofParts group table none
  | [group, table, region] =>
    match Text.readUInt64? region.toList with
    | some region => ofParts group table (some region)
    | none => .error (.nameRegion s)
  | _ => .error (.nameParts s)

/-- The table, with its region if there is one. -/
def tablePart (n : TableName) : String :=
  match n.region with
  | some region => n.table ++ "_" ++ Text.uint64Text region
  | none => n.table

def text (n : TableName) : String :=
  n.group ++ "_" ++ n.tablePart

/-- Where the files of the table are, below a base directory. -/
def directory (n : TableName) (base : Path) : Path :=
  ((base.join "data").join n.group).join n.tablePart

end TableName

end SpatialSegment
