import SpatialSegment.Proofs.Checked.Log
import SpatialSegment.Proofs.KeyIndex.Search
import SpatialSegment.Proofs.Log

/-!
# Scanning a sorted log

A scan reads record after record up to the first key that is not before the one it looks for. In a
log that is sorted by key that is the first tuple with the key, or there is none. What stands behind
the records is not looked at, as long as one of them stops the scan.
-/

namespace SpatialSegment

namespace KeySearch

variable {key : String} {t : Tuple} {tuples : List Tuple}

/-- Behind a key that is too great there is no tuple with the key. -/
theorem Ordered.find?_of_gt (ordered : Ordered ((t :: tuples).map Tuple.key))
    (h : Text.compare t.key key = .gt) :
    (t :: tuples).find? (fun t => t.key = key) = none := by
  obtain ⟨hfirst, -⟩ := List.pairwise_cons.mp ordered
  refine List.find?_eq_none.mpr fun t' ht' hkey => ?_
  have heq : t'.key = key := of_decide_eq_true hkey
  rcases List.mem_cons.mp ht' with rfl | hmem
  · rw [heq, Text.compare_self] at h
    cases h
  · exact hfirst t'.key (List.mem_map_of_mem hmem) (heq ▸ h)

end KeySearch

namespace Log

variable {fs : FileSystem} {log : Log} {v : View} {before tail : Bytes} {key : String} {t : Tuple}
  {tuples : List Tuple}

/-- A scan looks at the record that it has come to, and goes on behind it if its key is before the
one looked for. -/
theorem scanFrom_stored (shows : v.Shows fs (before ++ Record.stored t ++ tail))
    (fits : Record.Fits t) (hbefore : before.length < View.signedLimit) (key : String) :
    log.scanFrom fs v key before.length =
      match Text.compare t.key key with
      | .eq => .ok (some t)
      | .gt => .ok none
      | .lt => log.scanFrom fs v key (before ++ Record.stored t).length := by
  have hinside : before.length < v.length := by
    have hpos : 0 < Record.storedLen t := by
      rw [Record.storedLen, Record.headerLen]
      omega
    rw [shows.length_eq, List.length_append, List.length_append, Record.length_stored]
    omega
  rw [scanFrom_eq, if_pos hinside, announcedLenAt_eq shows fits hbefore, ok_bind,
    readRecord_eq shows fits hbefore, ok_bind, List.length_append, Record.length_stored]
  cases Text.compare t.key key <;> rfl

/-- From the first of the records on, a scan finds the first tuple with the key. It does so whatever
follows them if one of their keys is not before the one looked for. -/
theorem scanFrom_eq_find?
    (shows : v.Shows fs (before ++ tuples.flatMap Record.stored ++ tail))
    (fits : ∀ t ∈ tuples, Record.Fits t)
    (ordered : KeySearch.Ordered (tuples.map Tuple.key))
    (small : (before ++ tuples.flatMap Record.stored).length < View.signedLimit)
    (stops : tail = [] ∨ ∃ t ∈ tuples, Text.NotAfter key t.key) :
    log.scanFrom fs v key before.length = .ok (tuples.find? fun t => t.key = key) := by
  induction tuples generalizing before with
  | nil =>
    have hempty : tail = [] := stops.resolve_right fun ⟨t, ht, _⟩ => by cases ht
    rw [hempty, List.flatMap_nil, List.append_nil, List.append_nil] at shows
    rw [scanFrom_eq, if_neg (by rw [shows.length_eq]; omega)]
    rfl
  | cons t tuples ih =>
    obtain ⟨hfits, fits⟩ := List.forall_mem_cons.mp fits
    rw [List.flatMap_cons, List.append_assoc, List.append_assoc, ← List.append_assoc] at shows
    rw [List.flatMap_cons, ← List.append_assoc] at small
    have hbefore : before.length < View.signedLimit := by
      rw [List.length_append, List.length_append] at small
      omega
    rw [scanFrom_stored shows hfits hbefore]
    cases hcompare : Text.compare t.key key with
    | eq =>
      rw [List.find?_cons_of_pos (by simpa using Text.compare_eq_iff.mp hcompare)]
    | gt => rw [ordered.find?_of_gt hcompare]
    | lt =>
      have hne : t.key ≠ key := by
        intro heq
        rw [heq, Text.compare_self] at hcompare
        cases hcompare
      rw [List.find?_cons_of_neg (by simpa using hne)]
      rw [← List.append_assoc] at shows
      refine ih shows fits (List.pairwise_cons.mp ordered).2 small ?_
      -- The first key is before the one looked for, so it is another one that stops the scan.
      refine stops.imp_right fun ⟨t', ht', hstop⟩ => ⟨t', ?_, hstop⟩
      rcases List.mem_cons.mp ht' with rfl | hmem
      · exact absurd hstop (Text.not_notAfter_of_lt hcompare)
      · exact hmem

/-- A log of sorted records, with anything behind them. -/
theorem scan_eq_find?
    (shows : log.file.Shows fs
      (FileFormat.tupleLog.magic ++ tuples.flatMap Record.stored ++ tail))
    (fits : ∀ t ∈ tuples, Record.Fits t)
    (ordered : KeySearch.Ordered (tuples.map Tuple.key))
    (small : (FileFormat.tupleLog.magic ++ tuples.flatMap Record.stored).length <
      View.signedLimit)
    (stops : tail = [] ∨ ∃ t ∈ tuples, Text.NotAfter key t.key) :
    log.scan fs key = .ok (tuples.find? fun t => t.key = key) := by
  obtain ⟨v, hv, uses⟩ := shows.exists_use
  have hscan : log.scanFrom fs v key FileFormat.tupleLog.magic.length = _ :=
    scanFrom_eq_find? hv fits ordered small stops
  rw [FileFormat.length_magic] at hscan
  rw [scan, uses, hscan]
  rfl

/-- The reader of such a log starts in either mode. -/
theorem exists_scan {path : Path}
    (stores : fs.Stores path (FileFormat.tupleLog.magic ++ tuples.flatMap Record.stored ++ tail))
    (fits : ∀ t ∈ tuples, Record.Fits t)
    (ordered : KeySearch.Ordered (tuples.map Tuple.key))
    (small : (FileFormat.tupleLog.magic ++ tuples.flatMap Record.stored).length <
      View.signedLimit) (mode : ReadMode) :
    ∃ log : Log, (Log.new path mode).file.init fs = (.ok (), log.file) ∧
      ∀ key, tail = [] ∨ (∃ t ∈ tuples, Text.NotAfter key t.key) →
        log.scan fs key = .ok (tuples.find? fun t => t.key = key) := by
  have hbytes : FileFormat.tupleLog.magic ++ tuples.flatMap Record.stored ++ tail =
      FileFormat.tupleLog.magic ++ (tuples.flatMap Record.stored ++ tail) := List.append_assoc _ _ _
  obtain ⟨file, hinit, hshows, -⟩ :=
    GuardedFile.exists_init (hbytes ▸ stores) (fun n hn => by cases hn) mode
  exact ⟨⟨file⟩, hinit, fun key stops => scan_eq_find? (hbytes ▸ hshows) fits ordered small stops⟩

end Log

end SpatialSegment
