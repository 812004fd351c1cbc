import SpatialSegment.Proofs.Table

/-!
# The files of all segments are apart

A path tells the directory and the name that it was joined from. The name of a file tells table,
numeral and suffix, as neither separator nor dot is in a numeral and no separator is in a table. So
two segments share no path, and a number is read off the logs of its table alone.
-/

namespace SpatialSegment

namespace Path

variable {p q : Path} {a b : String}

/-- What stands behind the last slash of a path. -/
def fileName (p : Path) : String :=
  String.ofList ((Text.splitOn '/' p.text.toList).getLastD [])

/-- A path behind which a slash comes before a name. -/
def IsDirectory (p : Path) : Prop := p.text.toList ≠ [] ∧ p.endsInSlash = false

theorem toList_join_directory (hp : p.IsDirectory) (name : String) :
    (p.join name).text.toList = p.text.toList ++ '/' :: name.toList := by
  have hslash : p.text.toList.getLast? ≠ some '/' := of_decide_eq_false hp.2
  rw [toList_join, if_neg fun h => h.elim hp.1 hslash, List.append_assoc]
  rfl

theorem isDirectory_join (isPart : IsPart a) (base : Path) : (base.join a).IsDirectory := by
  refine ⟨toList_join_ne_nil isPart.ne_nil base, decide_eq_false fun hlast => isPart.slash ?_⟩
  rw [toList_join, List.getLast?_append, List.getLast?_eq_some_getLast isPart.ne_nil,
    Option.some_or] at hlast
  exact Option.some.inj hlast ▸ List.getLast_mem isPart.ne_nil

theorem fileName_join (hp : p.IsDirectory) (ha : '/' ∉ a.toList) : (p.join a).fileName = a := by
  rw [fileName, toList_join_directory hp, Text.splitOn_append, Text.splitOn_of_notMem ha,
    List.getLastD_concat, String.ofList_toList]

theorem join_inj (hp : p.IsDirectory) (hq : q.IsDirectory) (ha : '/' ∉ a.toList)
    (hb : '/' ∉ b.toList) : p.join a = q.join b ↔ p = q ∧ a = b := by
  constructor
  · intro h
    have hname := congrArg fileName h
    rw [fileName_join hp ha, fileName_join hq hb] at hname
    subst hname
    have htext := congrArg (fun path => path.text.toList) h
    simp only [toList_join_directory hp, toList_join_directory hq] at htext
    have hdirectory := String.toList_injective (List.append_cancel_right htext)
    cases p
    cases q
    exact ⟨congrArg Path.mk hdirectory, rfl⟩
  · rintro ⟨rfl, rfl⟩
    rfl

end Path

namespace TableName

variable {n m : TableName}

theorem isDirectory_group (n : TableName) (base : Path) :
    ((base.join "data").join n.group).IsDirectory :=
  Path.isDirectory_join (isPart_of_isNamePart n.group_ok) _

theorem isDirectory_directory (n : TableName) (base : Path) : (n.directory base).IsDirectory :=
  Path.isDirectory_join n.isPart_tablePart _

/-- Two tables have two paths below the same base. -/
theorem directory_inj {base : Path} : n.directory base = m.directory base ↔ n = m := by
  constructor
  · intro h
    have hdata : (base.join "data").IsDirectory := Path.isDirectory_join isPart_data base
    obtain ⟨hgroups, hpart⟩ :=
      (Path.join_inj (n.isDirectory_group base) (m.isDirectory_group base)
        n.slash_notMem_tablePart m.slash_notMem_tablePart).mp h
    obtain ⟨-, hgroup⟩ :=
      (Path.join_inj hdata hdata (slash_notMem_of_isNamePart n.group_ok)
        (slash_notMem_of_isNamePart m.group_ok)).mp hgroups
    exact eq_of_parts hgroup hpart
  · rintro rfl
    rfl

end TableName

namespace SegmentPaths

variable {n m : TableName} {i j : UInt64} {c d : List Char} {s t : String}

/-- The name of a file whose number is written so. -/
def named (n : TableName) (numeral : List Char) (suffix : String) : String :=
  nameStart ++ n.table ++ "_" ++ String.ofList numeral ++ suffix

theorem nameStem_append (n : TableName) (i : UInt64) (s : String) :
    nameStem n i ++ s = named n (Text.uint64Chars i) s := rfl

theorem dot_of_suffix (hs : s ∈ suffixes) :
    s.toList = '.' :: s.toList.tail ∧ '.' ∉ s.toList.tail ∧ '_' ∉ s.toList := by
  revert s
  decide

/-- A numeral that can be told from what stands around it. -/
def Bare (c : List Char) : Prop := '_' ∉ c ∧ '.' ∉ c

theorem bare_numeral (plus : Bool) (zeros : Nat) (i : UInt64) :
    Bare (Text.numeral plus zeros i) := by
  have hmem : ∀ c ∈ Text.numeral plus zeros i, c = '+' ∨ c.isDigit = true := by
    intro c hc
    rcases List.mem_append.mp hc with hplus | hdigit
    · cases plus with
      | true => exact .inl (List.mem_singleton.mp hplus)
      | false => cases hplus
    · exact .inr (Text.isDigit_of_mem_zeros_append hdigit)
  constructor
  · intro h
    have := hmem '_' h
    revert this
    decide
  · intro h
    have := hmem '.' h
    revert this
    decide

theorem bare_uint64Chars (i : UInt64) : Bare (Text.uint64Chars i) := bare_numeral false 0 i

theorem named_inj (hc : Bare c) (hd : Bare d) (hs : s ∈ suffixes) (ht : t ∈ suffixes) :
    named n c s = named m d t ↔ n.table = m.table ∧ c = d ∧ s = t := by
  constructor
  · intro h
    have hlist : nameStart.toList ++ (n.table.toList ++ '_' :: (c ++ s.toList)) =
        nameStart.toList ++ (m.table.toList ++ '_' :: (d ++ t.toList)) := by
      simpa [named] using congrArg String.toList h
    obtain ⟨hdot, hbody, hseparator⟩ := dot_of_suffix hs
    have hrest : '_' ∉ c ++ s.toList := by
      rw [List.mem_append]
      rintro (hmem | hmem)
      · exact hc.1 hmem
      · exact hseparator hmem
    obtain ⟨htable, -, htail⟩ :=
      (List.append_cons_inj_of_notMem (separator_notMem_of_isNamePart n.table_ok) hrest).mp
        (List.append_cancel_left hlist)
    rw [hdot, (dot_of_suffix ht).1] at htail
    obtain ⟨hnumeral, -, hsuffix⟩ := (List.append_cons_inj_of_notMem hc.2 hbody).mp htail
    refine ⟨String.toList_injective htable, hnumeral, String.toList_injective ?_⟩
    rw [hdot, (dot_of_suffix ht).1, hsuffix]
  · rintro ⟨htable, rfl, rfl⟩
    rw [named, named, htable]

theorem slash_notMem_named (hs : s ∈ suffixes) (i : UInt64) :
    '/' ∉ (nameStem n i ++ s).toList :=
  slash_notMem_append (slash_notMem_suffix hs)

theorem fileName_of_suffix (hs : s ∈ suffixes) (n : TableName) (base : Path) (i : UInt64) :
    ((n.directory base).join (nameStem n i ++ s)).fileName = named n (Text.uint64Chars i) s :=
  Path.fileName_join (n.isDirectory_directory base) (slash_notMem_named hs i)

/-- A path of a segment tells its table, its number and its suffix. -/
theorem path_inj {base : Path} (hs : s ∈ suffixes) (ht : t ∈ suffixes) :
    (n.directory base).join (nameStem n i ++ s) = (m.directory base).join (nameStem m j ++ t) ↔
      n = m ∧ i = j ∧ s = t := by
  rw [Path.join_inj (n.isDirectory_directory base) (m.isDirectory_directory base)
    (slash_notMem_named hs i) (slash_notMem_named ht j), TableName.directory_inj,
    nameStem_append, nameStem_append,
    named_inj (bare_uint64Chars i) (bare_uint64Chars j) hs ht]
  constructor
  · rintro ⟨rfl, -, hnumber, rfl⟩
    exact ⟨rfl, Text.uint64Chars_injective hnumber, rfl⟩
  · rintro ⟨rfl, rfl, rfl⟩
    exact ⟨rfl, rfl, rfl, rfl⟩

theorem mem_toList_ofNumber {p : Path} {base : Path} :
    p ∈ (ofNumber n base i).toList ↔
      ∃ s ∈ suffixes, (n.directory base).join (nameStem n i ++ s) = p := by
  rw [toList_ofNumber, List.mem_map]

theorem disjoint_of_ne {base : Path} (h : (n, i) ≠ (m, j)) :
    (ofNumber n base i).toList.Disjoint (ofNumber m base j).toList := by
  intro p hp hq
  obtain ⟨s, hs, rfl⟩ := mem_toList_ofNumber.mp hp
  obtain ⟨t, ht, hpath⟩ := mem_toList_ofNumber.mp hq
  obtain ⟨rfl, rfl, -⟩ := (path_inj ht hs).mp hpath
  exact h rfl

theorem logSuffix_mem : FileFormat.tupleLog.suffix ∈ suffixes := List.mem_cons_self

end SegmentPaths

namespace TableName

open SegmentPaths

variable {n m : TableName} {i j : UInt64} {c : List Char} {s : String}

/-- The names that a number is read off: those of the log whose number is written in any form. -/
theorem numberIn?_eq_some_iff {fileName : String} :
    n.numberIn? fileName = some i ↔
      ∃ plus zeros, fileName = named n (Text.numeral plus zeros i) FileFormat.tupleLog.suffix := by
  simp only [numberIn?, Option.bind_eq_bind, Option.bind_eq_some_iff, Text.behind?_eq_some_iff,
    Text.before?_eq_some_iff, Text.readUInt64?_eq_some_iff]
  constructor
  · rintro ⟨_, hstart, _, rfl, _, rfl, _, rfl, plus, zeros, rfl⟩
    refine ⟨plus, zeros, String.toList_injective ?_⟩
    simpa [named] using hstart
  · rintro ⟨plus, zeros, rfl⟩
    refine ⟨_, ?_, _, rfl, _, rfl, _, rfl, plus, zeros, rfl⟩
    simp [named]

theorem numberIn?_log (n : TableName) (i : UInt64) :
    n.numberIn? (named n (Text.uint64Chars i) FileFormat.tupleLog.suffix) = some i :=
  numberIn?_eq_some_iff.mpr ⟨false, 0, rfl⟩

/-- A number is read off the logs of the table alone. -/
theorem numberIn?_eq_none (hs : s ∈ suffixes)
    (h : ¬ (m.table = n.table ∧ s = FileFormat.tupleLog.suffix)) :
    n.numberIn? (named m (Text.uint64Chars i) s) = none := by
  rw [Option.eq_none_iff_forall_ne_some]
  intro k hk
  obtain ⟨plus, zeros, hname⟩ := numberIn?_eq_some_iff.mp hk
  obtain ⟨htable, -, hsuffix⟩ :=
    (named_inj (bare_uint64Chars i) (bare_numeral plus zeros k) hs logSuffix_mem).mp hname
  exact h ⟨htable, hsuffix⟩

end TableName

namespace SegmentPaths

theorem fileName_log (n : TableName) (base : Path) (i : UInt64) :
    (ofNumber n base i).log.fileName =
      named n (Text.uint64Chars i) FileFormat.tupleLog.suffix :=
  fileName_of_suffix logSuffix_mem n base i

/-- Names are read back from their texts. Two segments below one base have no path in common, the
files of one segment have five paths, and the number of a segment is read off its log and off no
other of its files; off no log at all of another table. -/
theorem names_and_files_apart (n m : TableName) (base : Path) (i j : UInt64) :
    TableName.ofParts n.group n.table n.region = .ok n ∧
    TableName.ofText n.text = .ok n ∧
    (ofNumber n base i).toList.Nodup ∧
    ((n, i) ≠ (m, j) → (ofNumber n base i).toList.Disjoint (ofNumber m base j).toList) ∧
    n.numberIn? (ofNumber n base i).log.fileName = some i ∧
    (∀ p ∈ (ofNumber n base i).toList, p ≠ (ofNumber n base i).log →
      n.numberIn? p.fileName = none) ∧
    (m.table ≠ n.table → n.numberIn? (ofNumber m base j).log.fileName = none) := by
  refine ⟨n.ofParts_self, n.ofText_text, (nodup_locations n base i).of_map, disjoint_of_ne,
    ?_, ?_, ?_⟩
  · rw [fileName_log]
    exact n.numberIn?_log i
  · intro p hp hne
    obtain ⟨s, hs, rfl⟩ := mem_toList_ofNumber.mp hp
    rw [fileName_of_suffix hs]
    apply TableName.numberIn?_eq_none hs
    rintro ⟨-, rfl⟩
    exact hne rfl
  · intro hne
    rw [fileName_log]
    apply TableName.numberIn?_eq_none logSuffix_mem
    rintro ⟨htable, -⟩
    exact hne htable

/-- The name of one table begins with that of the other. -/
theorem names_and_files_apart_beginning :
    ∃ n m : TableName, n.table = "t" ∧ m.table = "t1" ∧
      (ofNumber n ⟨"db"⟩ 1).toList.Disjoint (ofNumber m ⟨"db"⟩ 1).toList ∧
      n.numberIn? (ofNumber m ⟨"db"⟩ 1).log.fileName = none := by
  let n : TableName := ⟨"g", "t", none, by decide, by decide⟩
  let m : TableName := ⟨"g", "t1", none, by decide, by decide⟩
  have hne : m.table ≠ n.table := by decide
  obtain ⟨-, -, -, hdisjoint, -, -, hnone⟩ := names_and_files_apart n m ⟨"db"⟩ 1 1
  exact ⟨n, m, rfl, rfl, hdisjoint (by decide), hnone hne⟩

end SegmentPaths

end SpatialSegment
