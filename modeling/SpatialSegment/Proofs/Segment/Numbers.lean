import SpatialSegment.Proofs.Segment.Names

/-!
# The numbers that are found in a directory

A number is found once for each file name that is a form of its log's name. There are such names
beside the log's own, with zeros or a plus sign in front of the digits: then a number is found
without its log, or more than once. Where no such name is in the directory, the numbers are those of
the logs in it.
-/

namespace SpatialSegment

namespace Text

/-- Only the plain digits of a word are its digits. -/
theorem numeral_eq_uint64Chars_iff {plus : Bool} {zeros : Nat} {n : UInt64} :
    numeral plus zeros n = uint64Chars n ↔ plus = false ∧ zeros = 0 := by
  constructor
  · intro h
    have hlength := congrArg List.length h
    simp only [numeral, List.length_append, List.length_replicate] at hlength
    cases plus with
    | true =>
      rw [if_pos rfl, List.length_singleton] at hlength
      omega
    | false => exact ⟨rfl, by omega⟩
  · rintro ⟨rfl, rfl⟩
    rfl

end Text

/-- A list without repetitions stays one if no two members are turned into one. -/
theorem nodup_filterMap_iff {α β : Type} {xs : List α} {f : α → Option β} (once : xs.Nodup) :
    (xs.filterMap f).Nodup ↔ ∀ a ∈ xs, ∀ b ∈ xs, ∀ y, f a = some y → f b = some y → a = b := by
  rw [List.Nodup, List.pairwise_filterMap]
  constructor
  · intro h a ha b hb y hay hby
    by_contra hne
    have symmetric : Std.Symm fun a b => ∀ y, f a = some y → ∀ z, f b = some z → y ≠ z :=
      ⟨fun _ _ h y hy z hz heq => h z hz y hy heq.symm⟩
    exact h.forall ha hb hne y hay y hby rfl
  · intro h
    refine once.imp_of_mem fun {a b} ha hb hne y hay z hbz heq => hne ?_
    subst heq
    exact h a ha b hb y hay hbz

namespace TableName

open SegmentPaths

/-- The name of the log with a number. -/
def logName (n : TableName) (number : UInt64) : String :=
  named n (Text.uint64Chars number) FileFormat.tupleLog.suffix

variable {n : TableName} {names : List String}

theorem named_eq_logName_iff {plus : Bool} {zeros : Nat} {number : UInt64} :
    named n (Text.numeral plus zeros number) FileFormat.tupleLog.suffix = n.logName number ↔
      plus = false ∧ zeros = 0 := by
  rw [logName, named_inj (bare_numeral plus zeros number) (bare_uint64Chars number) logSuffix_mem
    logSuffix_mem, Text.numeral_eq_uint64Chars_iff]
  exact ⟨fun h => h.2.1, fun h => ⟨rfl, h, rfl⟩⟩

/-- The numbers that file names have, in order. -/
def numbersIn (n : TableName) (names : List String) : List UInt64 :=
  (names.filterMap n.numberIn?).mergeSort fun a b => a ≤ b

theorem numbersIn_perm (n : TableName) (names : List String) :
    (n.numbersIn names).Perm (names.filterMap n.numberIn?) :=
  List.mergeSort_perm _ _

theorem numbersIn_ordered (n : TableName) (names : List String) :
    (n.numbersIn names).Pairwise (· ≤ ·) := by
  have htrans : ∀ a b c : UInt64, decide (a ≤ b) = true → decide (b ≤ c) = true →
      decide (a ≤ c) = true := by
    intro a b c hab hbc
    rw [decide_eq_true_eq] at hab hbc ⊢
    exact UInt64.le_trans hab hbc
  have htotal : ∀ a b : UInt64, (decide (a ≤ b) || decide (b ≤ a)) = true := by
    intro a b
    rw [Bool.or_eq_true, decide_eq_true_eq, decide_eq_true_eq]
    exact UInt64.le_total a b
  have hsorted := List.pairwise_mergeSort htrans htotal (names.filterMap n.numberIn?)
  exact hsorted.imp of_decide_eq_true

theorem mem_numbersIn {number : UInt64} :
    number ∈ n.numbersIn names ↔ ∃ fileName ∈ names, n.numberIn? fileName = some number := by
  rw [(n.numbersIn_perm names).mem_iff, List.mem_filterMap]

/-- Each number is found as often as there are names with it. -/
theorem count_numbersIn (n : TableName) (names : List String) (number : UInt64) :
    (n.numbersIn names).count number =
      names.countP fun fileName => n.numberIn? fileName == some number := by
  rw [(n.numbersIn_perm names).count_eq, List.count_filterMap]

theorem numbersIn_ascending_iff (n : TableName) (names : List String) :
    (n.numbersIn names).Pairwise (· < ·) ↔ (names.filterMap n.numberIn?).Nodup := by
  rw [← (n.numbersIn_perm names).nodup_iff]
  constructor
  · exact fun h => h.imp fun hlt => UInt64.ne_of_lt hlt
  · exact fun h => (n.numbersIn_ordered names).imp₂ (fun _ _ => UInt64.lt_of_le_of_ne) h

/-- The numbers are those of the logs, each once, if each name with a number is that of its log;
and only then. -/
theorem numbersIn_of_logs_iff (once : names.Nodup) :
    ((n.numbersIn names).Pairwise (· < ·) ∧
        ∀ number, number ∈ n.numbersIn names ↔ n.logName number ∈ names) ↔
      ∀ fileName ∈ names, ∀ number, n.numberIn? fileName = some number →
        fileName = n.logName number := by
  rw [numbersIn_ascending_iff, nodup_filterMap_iff once]
  constructor
  · rintro ⟨alone, logs⟩ fileName hname number hnumber
    have hlog := (logs number).mp (mem_numbersIn.mpr ⟨fileName, hname, hnumber⟩)
    exact alone fileName hname _ hlog number hnumber (n.numberIn?_log number)
  · intro own
    constructor
    · intro a ha b hb number hanumber hbnumber
      exact (own a ha number hanumber).trans (own b hb number hbnumber).symm
    · intro number
      rw [mem_numbersIn]
      constructor
      · rintro ⟨fileName, hname, hnumber⟩
        exact own fileName hname number hnumber ▸ hname
      · exact fun hlog => ⟨n.logName number, hlog, n.numberIn?_log number⟩

/-- What is found in a directory; a directory that is not there holds nothing. -/
theorem storedNumbers_eq {fs : FileSystem} {base : Path}
    (listed : fs.names (n.directory base) = .ok names ∨
      fs.names (n.directory base) = .error .notFound ∧ names = []) :
    n.storedNumbers fs base = .ok (n.numbersIn names) := by
  unfold storedNumbers
  dsimp only
  rcases listed with hnames | ⟨hnone, rfl⟩
  · rw [hnames]
    rfl
  · rw [hnone]
    simp [numbersIn]

/-- A number is read off the name of its log in any written form. In a directory with these names
the numbers are found in order, each as often as there are names with it. They are those of the
logs in the directory, each once, exactly if no digits of a name have zeros or a plus sign in
front. -/
theorem numbers_of_stored_logs (n : TableName) (fs : FileSystem) (base : Path)
    {names : List String}
    (listed : fs.names (n.directory base) = .ok names ∨
      fs.names (n.directory base) = .error .notFound ∧ names = [])
    (once : names.Nodup) :
    (∀ fileName number, n.numberIn? fileName = some number ↔ ∃ plus zeros,
      fileName = named n (Text.numeral plus zeros number) FileFormat.tupleLog.suffix) ∧
    (∀ plus zeros number,
      named n (Text.numeral plus zeros number) FileFormat.tupleLog.suffix =
        (ofNumber n base number).log.fileName ↔ plus = false ∧ zeros = 0) ∧
    ∃ numbers, n.storedNumbers fs base = .ok numbers ∧ numbers.Pairwise (· ≤ ·) ∧
      (∀ number, numbers.count number =
        names.countP fun fileName => n.numberIn? fileName == some number) ∧
      ((numbers.Pairwise (· < ·) ∧
          ∀ number, number ∈ numbers ↔ (ofNumber n base number).log.fileName ∈ names) ↔
        ∀ fileName ∈ names, ∀ number, n.numberIn? fileName = some number →
          fileName = (ofNumber n base number).log.fileName) := by
  simp only [fileName_log]
  exact ⟨fun _ _ => numberIn?_eq_some_iff, fun _ _ _ => named_eq_logName_iff,
    n.numbersIn names, storedNumbers_eq listed, n.numbersIn_ordered names,
    n.count_numbersIn names, numbersIn_of_logs_iff once⟩

/-- The directory of the table `t` in the group `g`, with empty files. -/
def holding (names : List String) : FileSystem where
  places := names.map (fun name => (⟨false, ["db", "data", "g", "t", name]⟩, .file 0)) ++
    [(⟨false, ["db", "data", "g", "t"]⟩, .directory), (⟨false, ["db", "data", "g"]⟩, .directory),
      (⟨false, ["db", "data"]⟩, .directory), (⟨false, ["db"]⟩, .directory)]
  contents := [[]]

/-- Two logs and another file. -/
theorem numbers_of_stored_logs_two :
    let n : TableName := ⟨"g", "t", none, by decide, by decide⟩
    let names := ["sstable_t_12.sst", "notes", "sstable_t_7.sst"]
    (holding names).names (n.directory ⟨"db"⟩) = .ok names ∧ names.Nodup ∧
      ∃ numbers, n.storedNumbers (holding names) ⟨"db"⟩ = .ok numbers ∧
        numbers.Pairwise (· < ·) ∧
        ∀ number, number ∈ numbers ↔ (ofNumber n ⟨"db"⟩ number).log.fileName ∈ names := by
  intro n names
  have listed : (holding names).names (n.directory ⟨"db"⟩) = .ok names := by decide +kernel
  have once : names.Nodup := by decide
  have htwelve : n.numberIn? "sstable_t_12.sst" = some 12 := by decide +kernel
  have hnone : n.numberIn? "notes" = none := by decide +kernel
  have hseven : n.numberIn? "sstable_t_7.sst" = some 7 := by decide +kernel
  have own : ∀ fileName ∈ names, ∀ number, n.numberIn? fileName = some number →
      fileName = (ofNumber n ⟨"db"⟩ number).log.fileName := by
    intro fileName hname number hnumber
    rw [fileName_log]
    rcases List.mem_cons.mp hname with rfl | hname
    · rw [htwelve] at hnumber
      cases hnumber
      decide +kernel
    rcases List.mem_cons.mp hname with rfl | hname
    · rw [hnone] at hnumber
      cases hnumber
    rw [List.mem_singleton] at hname
    subst hname
    rw [hseven] at hnumber
    cases hnumber
    decide +kernel
  obtain ⟨-, -, numbers, hnumbers, -, -, hlogs⟩ :=
    numbers_of_stored_logs n (holding names) ⟨"db"⟩ (.inl listed) once
  obtain ⟨ascending, logs⟩ := hlogs.mpr own
  exact ⟨listed, once, numbers, hnumbers, ascending, logs⟩

/-- A file with a plus sign in its name is taken for a log, whose own name is another, and its
number is found though there is no log with it. -/
theorem number_found_without_log :
    let n : TableName := ⟨"g", "t", none, by decide, by decide⟩
    let fs := holding ["sstable_t_+1.sst"]
    n.numberIn? "sstable_t_+1.sst" = some 1 ∧
      "sstable_t_+1.sst" ≠ (ofNumber n ⟨"db"⟩ 1).log.fileName ∧
      n.storedNumbers fs ⟨"db"⟩ = .ok [1] ∧
      fs.isPresent (ofNumber n ⟨"db"⟩ 1).log = false := by
  intro n fs
  have hnumber : n.numberIn? "sstable_t_+1.sst" = some 1 := by decide +kernel
  have listed : fs.names (n.directory ⟨"db"⟩) = .ok ["sstable_t_+1.sst"] := by decide +kernel
  refine ⟨hnumber, ?_, ?_, by decide +kernel⟩
  · rw [fileName_log]
    decide +kernel
  · rw [storedNumbers_eq (.inl listed)]
    simp [numbersIn, hnumber]

end TableName

end SpatialSegment
