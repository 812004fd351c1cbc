import SpatialSegment.KeyIndex.Calls
import SpatialSegment.Proofs.Checked.Log
import SpatialSegment.Proofs.File.Modes
import SpatialSegment.Proofs.KeyIndex.Unordered

/-!
# The modes of a log and its key index do not show

All reads of a log and of its key index are uses of their files, so they answer alike in whatever
modes the two files are opened. Searches and iteration only depend on such reads, and so does what
comes into a cache.
-/

namespace SpatialSegment

namespace Log

variable {fs : FileSystem} {p : Path} {bs : Bytes} {log log' : Log} {v w : View}

section

variable (twins : GuardedFile.Twins fs p bs log.file log'.file)
  (small : bs.length < View.signedLimit)

include twins

theorem faultAt_twins (offset : Nat) : log.faultAt offset = log'.faultAt offset := by
  funext cause
  rw [faultAt, faultAt, twins.path, twins.path']

include small

theorem read_twins (hv : v.Opens fs bs) (hw : w.Opens fs bs) (offset len : Nat) :
    log.file.read fs v offset len = log'.file.read fs w offset len :=
  GuardedFile.read_twins small (twins.path.trans twins.path'.symm) hv hw offset len

theorem announcedLenAt_twins (hv : v.Opens fs bs) (hw : w.Opens fs bs) (offset : Nat) :
    log.announcedLenAt fs v offset = log'.announcedLenAt fs w offset := by
  rw [announcedLenAt, announcedLenAt, read_twins twins small hv hw, faultAt_twins twins]

theorem readRecord_twins (hv : v.Opens fs bs) (hw : w.Opens fs bs) (offset len : Nat) :
    log.readRecord fs v offset len = log'.readRecord fs w offset len := by
  rw [readRecord, readRecord, read_twins twins small hv hw, faultAt_twins twins]

theorem tupleAt_twins (offset : Nat) : log.tupleAt fs offset = log'.tupleAt fs offset := by
  refine twins.use_eq fun v w hv hw => ?_
  simp only [announcedLenAt_twins twins small hv hw, readRecord_twins twins small hv hw]

theorem keyAt_twins (offset : Nat) : log.keyAt fs offset = log'.keyAt fs offset := by
  refine twins.use_eq fun v w hv hw => ?_
  simp only [read_twins twins small hv hw, faultAt_twins twins, twins.path, twins.path']

/-- Each turn of a search reads the same record. -/
theorem scanFrom_twins (hv : v.Opens fs bs) (hw : w.Opens fs bs) (key : String) (offset : Nat) :
    log.scanFrom fs v key offset = log'.scanFrom fs w key offset := by
  have hlength : v.length = w.length := hv.shows.length_eq.trans hw.shows.length_eq.symm
  induction offset using record_induction fs log v with
  | turn offset ih =>
    rw [scanFrom_eq, scanFrom_eq, ← hlength, ← announcedLenAt_twins twins small hv hw]
    by_cases hlt : offset < v.length
    · rw [if_pos hlt, if_pos hlt]
      cases hlen : log.announcedLenAt fs v offset with
      | error cause => rfl
      | ok len => simp only [ok_bind, readRecord_twins twins small hv hw, ih len hlt hlen]
    · rw [if_neg hlt, if_neg hlt]

theorem offsetsFrom_twins (hv : v.Opens fs bs) (hw : w.Opens fs bs) (offset : Nat) :
    log.offsetsFrom fs v offset = log'.offsetsFrom fs w offset := by
  have hlength : v.length = w.length := hv.shows.length_eq.trans hw.shows.length_eq.symm
  induction offset using record_induction fs log v with
  | turn offset ih =>
    rw [offsetsFrom_eq, offsetsFrom_eq, ← hlength, ← announcedLenAt_twins twins small hv hw]
    by_cases hlt : offset < v.length
    · rw [if_pos hlt, if_pos hlt]
      cases hlen : log.announcedLenAt fs v offset with
      | error cause => rfl
      | ok len => simp only [ok_bind, ih len hlt hlen]
    · rw [if_neg hlt, if_neg hlt]

theorem scan_twins (key : String) : log.scan fs key = log'.scan fs key := by
  have huse := twins.use_eq fun v w hv hw =>
    scanFrom_twins twins small hv hw key FileFormat.bodyStart
  rw [scan, scan, huse]

theorem offsets_twins : log.offsets fs = log'.offsets fs := by
  have huse := twins.use_eq fun v w hv hw =>
    offsetsFrom_twins twins small hv hw FileFormat.bodyStart
  rw [offsets, offsets, huse]

end

end Log

namespace KeyIndex

variable {fs : FileSystem} {p q : Path} {bs cs : Bytes} {x y : KeyIndex}

section

variable (twins : GuardedFile.Twins fs p bs x.file y.file)
  (logTwins : GuardedFile.Twins fs q cs x.log.file y.log.file)
  (small : bs.length < View.signedLimit) (logSmall : cs.length < View.signedLimit)

include twins

theorem length_twins : x.length = y.length := by
  rw [length, length, GuardedFile.bodyLen, GuardedFile.bodyLen, twins.openLen_eq]

include small

theorem offsetAt_twins (ordinal : Nat) : x.offsetAt fs ordinal = y.offsetAt fs ordinal := by
  have hread {v w : View} (hv : v.Opens fs bs) (hw : w.Opens fs bs) (offset len : Nat) :
      x.file.read fs v offset len = y.file.read fs w offset len :=
    GuardedFile.read_twins small (twins.path.trans twins.path'.symm) hv hw offset len
  rw [offsetAt, offsetAt, twins.path, twins.path']
  congr 1
  refine twins.use_eq fun v w hv hw => ?_
  rw [hread hv hw]

theorem offsetsAt_twins (ordinals : List Nat) :
    x.offsetsAt fs ordinals = y.offsetsAt fs ordinals := by
  induction ordinals with
  | nil => rfl
  | cons ordinal ordinals ih => rw [offsetsAt, offsetsAt, offsetAt_twins twins small, ih]

include logTwins logSmall

theorem loadKey_twins (ordinal : Nat) : x.loadKey fs ordinal = y.loadKey fs ordinal := by
  simp only [loadKey, offsetAt_twins twins small, Log.keyAt_twins logTwins logSmall]

theorem tupleAt_twins (ordinal : Nat) : x.tupleAt fs ordinal = y.tupleAt fs ordinal := by
  simp only [tupleAt, offsetAt_twins twins small, Log.tupleAt_twins logTwins logSmall]

theorem keyAt_twins : x.keyAt fs = y.keyAt fs := by
  funext ordinal
  simp only [keyAt, loadKey_twins twins logTwins small logSmall]

theorem positions_twins (key : String) : x.positions fs key = y.positions fs key := by
  simp only [positions, keyAt_twins twins logTwins small logSmall, length_twins twins,
    offsetsAt_twins twins small]

theorem step_twins (cursor : Cursor) : x.step fs cursor = y.step fs cursor := by
  simp only [step, tupleAt_twins twins logTwins small logSmall]

end

end KeyIndex

namespace CachedIndex

/-- Index and log differ at most in their modes, and the caches not at all. -/
structure Twins (fs : FileSystem) (p q : Path) (bs cs : Bytes) (x y : CachedIndex) : Prop where
  shared : SharedFile.Twins fs p bs x.shared y.shared
  log : GuardedFile.Twins fs q cs x.log.file y.log.file
  cache : x.cache = y.cache

variable {fs : FileSystem} {p q : Path} {bs cs : Bytes} {x y : CachedIndex}

theorem Twins.run {α : Type} (twins : Twins fs p q bs cs x y) (steps : Lookup α) :
    (x.run steps).1 = (y.run steps).1 ∧ Twins fs p q bs cs (x.run steps).2 (y.run steps).2 := by
  rw [CachedIndex.run, CachedIndex.run, twins.cache]
  exact ⟨rfl, twins.shared, twins.log, rfl⟩

theorem Twins.file (twins : Twins fs p q bs cs x y) (small : bs.length < View.signedLimit)
    (c : SharedFile.Call) :
    (x.call fs (.file c)).1 = (y.call fs (.file c)).1 ∧
      Twins fs p q bs cs (x.call fs (.file c)).2 (y.call fs (.file c)).2 := by
  by_cases hshutdown : c = .shutdown
  · subst hshutdown
    refine ⟨rfl, twins.shared.shutdown, twins.log, ?_⟩
    exact congrArg (Option.map RecentKeys.clear) twins.cache
  · obtain ⟨hanswer, hshared⟩ := SharedFile.alike_twins fs p small _ _ c twins.shared
    rw [call_file x hshutdown, call_file y hshutdown]
    exact ⟨congrArg Answer.file hanswer, hshared, twins.log, twins.cache⟩

/-- Every call is answered alike. -/
theorem alike_twins (fs : FileSystem) (p q : Path) (small : bs.length < View.signedLimit)
    (logSmall : cs.length < View.signedLimit) :
    Calls.Alike (Twins fs p q bs cs) (call fs) (call fs) := by
  intro x y c twins
  have index := twins.shared.file
  have log := twins.log
  cases c with
  | file c => exact twins.file small c
  | length => exact ⟨congrArg Answer.length (KeyIndex.length_twins index), twins⟩
  | offsetAt ordinal =>
    exact ⟨congrArg Answer.offset (KeyIndex.offsetAt_twins index small ordinal), twins⟩
  | keyAt ordinal =>
    have hkeys : x.index.keyAt fs = y.index.keyAt fs :=
      KeyIndex.keyAt_twins index log small logSmall
    obtain ⟨hanswer, htwins⟩ := twins.run (y.index.keyAt fs ordinal)
    rw [call, call, hkeys]
    exact ⟨congrArg Answer.key hanswer, htwins⟩
  | tupleAt ordinal =>
    exact ⟨congrArg Answer.tuple (KeyIndex.tupleAt_twins index log small logSmall ordinal), twins⟩
  | positions key =>
    have hpositions : x.index.positions fs key = y.index.positions fs key :=
      KeyIndex.positions_twins index log small logSmall key
    obtain ⟨hanswer, htwins⟩ := twins.run (y.index.positions fs key)
    rw [call, call, hpositions]
    exact ⟨congrArg Answer.positions hanswer, htwins⟩
  | step cursor =>
    have hstep : x.index.step fs cursor = y.index.step fs cursor :=
      KeyIndex.step_twins index log small logSmall cursor
    rw [call, call, hstep]
    exact ⟨rfl, twins⟩

end CachedIndex

namespace Readers

/-- Log and index differ at most in their modes, and the caches not at all. -/
structure Twins (fs : FileSystem) (p q : Path) (bs cs : Bytes) (r r' : Readers) : Prop where
  log : SharedFile.Twins fs p bs r.log r'.log
  index : SharedFile.Twins fs q cs r.index r'.index
  cache : r.cache = r'.cache

variable {fs : FileSystem} {p q : Path} {bs cs : Bytes} {r r' : Readers}

theorem Twins.cachedIndex (twins : Twins fs p q bs cs r r') :
    CachedIndex.Twins fs q p cs bs r.cachedIndex r'.cachedIndex :=
  ⟨twins.index, twins.log.file, twins.cache⟩

theorem Twins.activate (twins : Twins fs p q bs cs r r') (capacity : Nat) :
    (r.call fs (.activate capacity)).1 = (r'.call fs (.activate capacity)).1 ∧
      Twins fs p q bs cs (r.call fs (.activate capacity)).2
        (r'.call fs (.activate capacity)).2 := by
  have hcache : r.cachedIndex.cache = r'.cachedIndex.cache := twins.cache
  rw [call, call, CachedIndex.activate, CachedIndex.activate, hcache]
  by_cases hzero : capacity = 0
  · rw [if_pos hzero, if_pos hzero]
    exact ⟨rfl, twins.log, twins.index, twins.cache⟩
  · rw [if_neg hzero, if_neg hzero]
    cases RecentKeys.ofCapacity? capacity with
    | none => exact ⟨rfl, twins⟩
    | some cache =>
      cases r'.cachedIndex.cache with
      | none => exact ⟨rfl, twins.log, twins.index, rfl⟩
      | some active => exact ⟨rfl, twins⟩

/-- Every call is answered alike. -/
theorem alike_twins (fs : FileSystem) (p q : Path) (small : bs.length < View.signedLimit)
    (indexSmall : cs.length < View.signedLimit) :
    Calls.Alike (Twins fs p q bs cs) (call fs) (call fs) := by
  intro r r' c twins
  have log := twins.log.file
  cases c with
  | log c =>
    obtain ⟨hanswer, hlog⟩ := SharedFile.alike_twins fs p small _ _ c twins.log
    exact ⟨congrArg Answer.file hanswer, hlog, twins.index, twins.cache⟩
  | tupleAt offset => exact ⟨congrArg Answer.tuple (Log.tupleAt_twins log small offset), twins⟩
  | keyAt offset => exact ⟨congrArg Answer.key (Log.keyAt_twins log small offset), twins⟩
  | scan key => exact ⟨congrArg Answer.tuple (Log.scan_twins log small key), twins⟩
  | offsets => exact ⟨congrArg Answer.offsets (Log.offsets_twins log small), twins⟩
  | indexFile c =>
    obtain ⟨hanswer, hindex⟩ := SharedFile.alike_twins fs q indexSmall _ _ c twins.index
    exact ⟨congrArg Answer.file hanswer, twins.log, hindex, twins.cache⟩
  | index c =>
    obtain ⟨hanswer, hindex⟩ :=
      CachedIndex.alike_twins fs q p indexSmall small _ _ c twins.cachedIndex
    exact ⟨congrArg Answer.index hanswer, twins.log, hindex.shared, hindex.cache⟩
  | activate capacity => exact twins.activate capacity
  | cached => exact ⟨congrArg Answer.cached twins.cache, twins⟩

/-- Whatever two files hold, no longer than positions in a file can be, a log and an index on them
answer all calls alike in whatever modes they are, and so does one file that is taken for one of any
format. A range of a file that runs is given if a word holds its end and the file reaches to it, and
is a fault of the format otherwise. -/
theorem modes_do_not_show (fs : FileSystem) (p q : Path) (bs cs : Bytes) (stores : fs.Stores p bs)
    (indexStores : fs.Stores q cs) (small : bs.length < View.signedLimit)
    (indexSmall : cs.length < View.signedLimit) (mode mode' indexMode indexMode' : ReadMode) :
    (∀ calls : List Call,
      Calls.answers (call fs) (new p mode q indexMode) calls =
        Calls.answers (call fs) (new p mode' q indexMode') calls) ∧
      ∀ (format : FileFormat) (calls : List SharedFile.Call),
        Calls.answers (SharedFile.call fs) (SharedFile.new format p mode) calls =
          Calls.answers (SharedFile.call fs) (SharedFile.new format p mode') calls ∧
        ∀ offset len : Nat,
          let s := Calls.stateAfter (SharedFile.call fs) (SharedFile.new format p mode) calls
          (s.call fs (.read offset len)).1 = .bytes
            (if s.file.service.status = .running then
              if offset + len < Word.limit 8 ∧ offset + len ≤ bs.length then
                .ok (some ((bs.drop offset).take len))
              else .error (.formatIn p (.range len offset bs.length))
            else .ok none) := by
  have new_twins (format : FileFormat) (mode mode' : ReadMode) :
      SharedFile.Twins fs p bs (SharedFile.new format p mode) (SharedFile.new format p mode') :=
    ⟨.new stores format mode mode', rfl⟩
  have readers : Twins fs p q bs cs (new p mode q indexMode) (new p mode' q indexMode') :=
    ⟨new_twins _ mode mode', ⟨.new indexStores .keyIndex indexMode indexMode', rfl⟩, rfl⟩
  refine ⟨(alike_twins fs p q small indexSmall).answers_eq readers, fun format calls => ⟨?_, ?_⟩⟩
  · exact (SharedFile.alike_twins fs p small).answers_eq (new_twins format mode mode') calls
  · intro offset len s
    have twins := (SharedFile.alike_twins fs p small).stateAfter (new_twins format mode mode) calls
    exact congrArg SharedFile.Answer.bytes (twins.file.read_eq small offset len)

/-- A log of two records and an index of them in the wrong order: the readers are asked for keys and
tuples, among them one behind the last, and then the log is stopped. Of the log the last letters of
the preamble are read, and a range that no word holds the end of. -/
theorem modes_do_not_show_unordered :
    ∃ fs : FileSystem, fs.Stores ⟨"x.sst"⟩ KeyIndex.logInOrder ∧
      fs.Stores ⟨"x.idx"⟩ (KeyIndex.offsetBytes [38, 10]) ∧
      KeyIndex.logInOrder.length < View.signedLimit ∧
      (KeyIndex.offsetBytes [38, 10]).length < View.signedLimit ∧
      (let calls : List Call := [.log .init, .index (.file .init), .activate 1, .index (.keyAt 0),
        .index (.tupleAt 2), .scan "b", .log .shutdown, .index (.keyAt 0), .index (.keyAt 1)]
      Calls.answers (call fs) (new ⟨"x.sst"⟩ .buffered ⟨"x.idx"⟩ .mapped) calls =
        Calls.answers (call fs) (new ⟨"x.sst"⟩ .mapped ⟨"x.idx"⟩ .buffered) calls) ∧
      let s := Calls.stateAfter (SharedFile.call fs)
        (SharedFile.new .tupleLog ⟨"x.sst"⟩ .buffered) [.init]
      (s.call fs (.read 7 3)).1 = .bytes (.ok (some [0x6c, 0x6f, 0x67])) ∧
        (s.call fs (.read 0xffffffffffffffff 2)).1 =
          .bytes (.error (.formatIn ⟨"x.sst"⟩ (.range 2 0xffffffffffffffff 65))) := by
  have hlog : (FileSystem.empty.write ⟨"x.sst"⟩ []).isOk = true := by decide +kernel
  have hindex : (FileSystem.empty.write ⟨"x.idx"⟩ []).isOk = true := by decide +kernel
  have rooms : ∀ e ∈ [((⟨"x.sst"⟩ : Path), KeyIndex.logInOrder),
      (⟨"x.idx"⟩, KeyIndex.offsetBytes [38, 10])], FileSystem.empty.Room e.1 := by
    simp only [List.forall_mem_cons]
    exact ⟨(FileSystem.vacant_empty _).room_of_isOk hlog,
      (FileSystem.vacant_empty _).room_of_isOk hindex, by simp⟩
  obtain ⟨fs, -, stores⟩ := FileSystem.exists_stores rooms (by decide +kernel)
  simp only [List.forall_mem_cons] at stores
  obtain ⟨logStores, indexStores, -⟩ := stores
  have small : KeyIndex.logInOrder.length < View.signedLimit := by decide
  have indexSmall : (KeyIndex.offsetBytes [38, 10]).length < View.signedLimit := by decide
  have hlength : KeyIndex.logInOrder.length = 65 := by decide
  obtain ⟨hanswers, hfile⟩ := modes_do_not_show fs ⟨"x.sst"⟩ ⟨"x.idx"⟩ _ _ logStores indexStores
    small indexSmall .buffered .mapped .mapped .buffered
  obtain ⟨-, hread⟩ := hfile .tupleLog [.init]
  refine ⟨fs, logStores, indexStores, small, indexSmall, hanswers _, ?_⟩
  intro s
  have hrunning : s.file.service.status = .running := by
    rw [KeyIndex.logInOrder, List.append_assoc] at logStores
    obtain ⟨f, hinit, hshows, -⟩ :=
      GuardedFile.exists_init logStores (fun n hn => by cases hn) .buffered
    simp only [s, Calls.stateAfter, SharedFile.call, SharedFile.init, SharedFile.new, hinit]
    exact hshows.running
  refine ⟨(hread 7 3).trans ?_, (hread 0xffffffffffffffff 2).trans ?_⟩
  · rw [if_pos hrunning, if_pos (by decide)]
    rfl
  · rw [if_pos hrunning, if_neg (by decide), hlength]

end Readers

end SpatialSegment
