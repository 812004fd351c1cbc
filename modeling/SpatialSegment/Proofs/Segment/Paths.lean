import Mathlib.Data.List.Nodup
import SpatialSegment.Segment.Paths
import SpatialSegment.Proofs.File.System
import SpatialSegment.Proofs.Lists

/-!
# The files of a segment are apart

The names of the five files are names without a slash that differ in their suffix. So each of them
lies right in the directory of the table, at a location of its own, and can come without the others.
-/

namespace SpatialSegment

theorem slash_notMem_of_isNamePart {part : String} (h : isNamePart part = true) :
    '/' ∉ part.toList := by
  intro hmem
  simp [isNamePart, hmem] at h

theorem slash_notMem_uint64Text (n : UInt64) : '/' ∉ (Text.uint64Text n).toList := by
  intro hmem
  rw [Text.uint64Text, String.toList_ofList, Text.uint64Chars] at hmem
  have hdigit := Nat.isDigit_of_mem_toDigits (b := 10) (by decide) (by decide) hmem
  revert hdigit
  decide

namespace TableName

theorem tablePart_ne_nil (n : TableName) : n.tablePart.toList ≠ [] := by
  unfold tablePart
  split
  · simp
  · intro hnil
    have h := n.table_ok
    simp [isNamePart, hnil] at h

theorem directory_ne_nil (n : TableName) (base : Path) : (n.directory base).text.toList ≠ [] :=
  Path.toList_join_ne_nil n.tablePart_ne_nil _

end TableName

namespace SegmentPaths

variable {table : TableName} {number : UInt64}

def suffixes : List String :=
  [FileFormat.tupleLog.suffix, FileFormat.keyIndex.suffix, FileFormat.spatialIndex.suffix,
    filterSuffix, summarySuffix]

theorem toList_ofNumber (table : TableName) (base : Path) (number : UInt64) :
    (ofNumber table base number).toList =
      suffixes.map fun suffix => (table.directory base).join (nameStem table number ++ suffix) := by
  simp only [ofNumber, toList, suffixes, List.map_cons, List.map_nil]

theorem slash_notMem_append {suffix : String} (h : '/' ∉ suffix.toList) :
    '/' ∉ (nameStem table number ++ suffix).toList := by
  have htable := slash_notMem_of_isNamePart table.table_ok
  have hnumber := slash_notMem_uint64Text number
  simp [nameStem, nameStart, htable, hnumber, h]

theorem isFileName_of_suffix {suffix : String} (h : '/' ∉ suffix.toList) :
    IsFileName (nameStem table number ++ suffix) := by
  apply isFileName_of_no_slash (slash_notMem_append h)
  simp [nameStem, nameStart]

theorem slash_notMem_suffix {suffix : String} (h : suffix ∈ suffixes) : '/' ∉ suffix.toList := by
  revert suffix
  decide

/-- The files are in the directory of the table. -/
theorem location_eq {suffix : String} (h : suffix ∈ suffixes) (table : TableName) (base : Path)
    (number : UInt64) :
    ((table.directory base).join (nameStem table number ++ suffix)).location =
      (table.directory base).location.below (nameStem table number ++ suffix) :=
  Path.location_join (table.directory_ne_nil base)
    (isFileName_of_suffix (slash_notMem_suffix h))

/-- No two files are at one location. -/
theorem nodup_locations (table : TableName) (base : Path) (number : UInt64) :
    ((ofNumber table base number).toList.map Path.location).Nodup := by
  rw [toList_ofNumber, List.map_map]
  refine List.Nodup.map_on ?_ (by decide)
  intro a ha b hb hab
  simp only [Function.comp_apply, location_eq ha, location_eq hb] at hab
  have hnames := Location.below_injective hab
  exact (String.append_right_inj _).mp hnames

/-- The files that are written, with or without a filter. -/
def stored (files : SegmentPaths) (useFilter : Bool) : List Path :=
  [files.log, files.keyIndex, files.spatialIndex] ++ (if useFilter then [files.filter] else []) ++
    [files.summary]

theorem stored_sublist (files : SegmentPaths) (useFilter : Bool) :
    (files.stored useFilter).Sublist files.toList := by
  cases useFilter with
  | true => exact List.Sublist.refl _
  | false => exact .cons_cons _ (.cons_cons _ (.cons_cons _ (.cons _ (List.Sublist.refl _))))

/-- The files that are written before the filter. -/
def indexes (files : SegmentPaths) : List Path :=
  [files.log, files.keyIndex, files.spatialIndex]

theorem indexes_sublist (files : SegmentPaths) : files.indexes.Sublist files.toList :=
  List.sublist_append_left files.indexes [files.filter, files.summary]

theorem filter_mem_toList (files : SegmentPaths) : files.filter ∈ files.toList :=
  List.mem_append_right [files.log, files.keyIndex, files.spatialIndex] List.mem_cons_self

/-- Away from the filter are the files that are written without one. -/
theorem location_ne_filter {files : SegmentPaths} (apart : (files.toList.map Path.location).Nodup) :
    ∀ p ∈ files.stored false, p.location ≠ files.filter.location := by
  intro p hp heq
  have perm : ([files.log, files.keyIndex, files.spatialIndex] ++
      files.filter :: [files.summary]).Perm (files.filter :: files.stored false) :=
    List.perm_middle
  obtain ⟨hnot, -⟩ := List.nodup_cons.mp ((perm.map Path.location).nodup_iff.mp apart)
  exact hnot (List.mem_map.mpr ⟨p, hp, heq⟩)

/-- Where there was room for all files, those are present that have come. -/
theorem present_eq {files : SegmentPaths} (apart : (files.toList.map Path.location).Nodup)
    {fs fs' : FileSystem} (room : ∀ p ∈ files.toList, fs.Room p) {ps : List Path}
    (hsub : ps.Sublist files.toList) (fills : fs.Fills ps fs') : files.present fs' = ps := by
  conv_rhs => rw [← filter_mem_eq hsub apart.of_map]
  refine List.filter_congr fun p hp => ?_
  rw [Bool.eq_iff_iff, decide_eq_true_eq]
  refine fills.isPresent_iff (room p hp) fun hlocation => ?_
  obtain ⟨q, hq, heq⟩ := List.mem_map.mp hlocation
  rwa [← List.inj_on_of_nodup_map apart (hsub.subset hq) hp heq]

end SegmentPaths

end SpatialSegment
