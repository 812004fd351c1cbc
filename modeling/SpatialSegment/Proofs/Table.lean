import SpatialSegment.Proofs.Segment.Paths
import SpatialSegment.Proofs.Text.Numerals

/-!
# Names of tables read back

No part of a name holds the separator and neither does a number, so a name falls apart at the
separators into what it was made of: the text of a name is read as that name, and the name of its
directory tells table and region. Group and directory are parts of a path that do not go up.
-/

namespace SpatialSegment

theorem separator_notMem_of_isNamePart {part : String} (h : isNamePart part = true) :
    '_' ∉ part.toList := by
  intro hmem
  simp [isNamePart, hmem] at h

theorem isPart_of_isNamePart {part : String} (h : isNamePart part = true) : Path.IsPart part where
  ne_nil := fun hnil => by simp [isNamePart, hnil] at h
  slash := slash_notMem_of_isNamePart h
  ne_up := fun hup => by simp [isNamePart, hup] at h

theorem isPart_data : Path.IsPart "data" := ⟨by decide, by decide, by decide⟩

theorem separator_notMem_uint64Chars (n : UInt64) : '_' ∉ Text.uint64Chars n :=
  Nat.underscore_not_in_toDigits

namespace TableName

variable {n m : TableName}

/-- What is in a name has passed the check of new names. -/
theorem ofParts_self (n : TableName) : ofParts n.group n.table n.region = .ok n := by
  rw [ofParts, dif_pos n.group_ok, dif_pos n.table_ok]

theorem splitOn_tablePart (n : TableName) :
    Text.splitOn '_' n.tablePart.toList =
      n.table.toList :: (n.region.map Text.uint64Chars).toList := by
  have htable := Text.splitOn_of_notMem (separator_notMem_of_isNamePart n.table_ok)
  cases hregion : n.region with
  | none =>
    rw [tablePart, hregion]
    exact htable
  | some region =>
    have htext : n.tablePart.toList = n.table.toList ++ '_' :: Text.uint64Chars region := by
      rw [tablePart, hregion]
      simp [Text.uint64Text]
    rw [htext, Text.splitOn_append, htable,
      Text.splitOn_of_notMem (separator_notMem_uint64Chars region)]
    rfl

theorem splitOn_text (n : TableName) :
    Text.splitOn '_' n.text.toList =
      n.group.toList :: n.table.toList :: (n.region.map Text.uint64Chars).toList := by
  have htext : n.text.toList = n.group.toList ++ '_' :: n.tablePart.toList := by
    simp [text]
  rw [htext, Text.splitOn_append,
    Text.splitOn_of_notMem (separator_notMem_of_isNamePart n.group_ok), splitOn_tablePart]
  rfl

theorem ofText_text (n : TableName) : ofText n.text = .ok n := by
  rw [ofText, splitOn_text]
  cases hregion : n.region with
  | none =>
    have hparts := ofParts_self n
    rw [hregion] at hparts
    simpa using hparts
  | some region =>
    have hparts := ofParts_self n
    have hread : Text.readUInt64? (Text.uint64Chars region) = some region :=
      Text.readUInt64?_numeral false 0 region
    rw [hregion] at hparts
    simpa [hread] using hparts

theorem region_injective {r s : Option UInt64}
    (h : (r.map Text.uint64Chars).toList = (s.map Text.uint64Chars).toList) : r = s := by
  apply Option.map_injective fun _ _ => Text.uint64Chars_injective
  have hhead := congrArg List.head? h
  rwa [Option.head?_toList, Option.head?_toList] at hhead

/-- The name of the directory of a table tells table and region. -/
theorem tablePart_inj : n.tablePart = m.tablePart ↔ n.table = m.table ∧ n.region = m.region := by
  constructor
  · intro h
    have hparts := congrArg (fun part => Text.splitOn '_' part.toList) h
    simp only [splitOn_tablePart, List.cons.injEq] at hparts
    exact ⟨String.toList_injective hparts.1, region_injective hparts.2⟩
  · rintro ⟨htable, hregion⟩
    rw [tablePart, tablePart, htable, hregion]

theorem eq_of_parts (group : n.group = m.group) (part : n.tablePart = m.tablePart) : n = m := by
  obtain ⟨table, region⟩ := tablePart_inj.mp part
  cases n
  cases m
  congr

/-- A directory is called like a part only if the part is the whole table. -/
theorem tablePart_eq_iff {part : String} (h : '_' ∉ part.toList) :
    n.tablePart = part ↔ n.table = part ∧ n.region = none := by
  constructor
  · intro heq
    have hparts := splitOn_tablePart n
    rw [heq, Text.splitOn_of_notMem h, List.cons.injEq] at hparts
    refine ⟨(String.toList_injective hparts.1).symm, ?_⟩
    cases hregion : n.region with
    | none => rfl
    | some region =>
      rw [hregion] at hparts
      cases hparts.2
  · rintro ⟨rfl, hregion⟩
    rw [tablePart, hregion]

theorem slash_notMem_tablePart (n : TableName) : '/' ∉ n.tablePart.toList := by
  have htable := slash_notMem_of_isNamePart n.table_ok
  cases hregion : n.region with
  | none =>
    rw [tablePart, hregion]
    exact htable
  | some region =>
    have hnumber := slash_notMem_uint64Text region
    simp [tablePart, hregion, htable, hnumber]

theorem isPart_tablePart (n : TableName) : Path.IsPart n.tablePart where
  ne_nil := n.tablePart_ne_nil
  slash := n.slash_notMem_tablePart
  ne_up := fun hup => by
    have hpart : n.tablePart = ".." := String.toList_injective hup
    obtain ⟨htable, -⟩ := (tablePart_eq_iff (by decide)).mp hpart
    exact (isPart_of_isNamePart n.table_ok).ne_up (congrArg String.toList htable)

end TableName

end SpatialSegment
