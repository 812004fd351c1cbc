import SpatialSegment.KeyIndex.Calls
import SpatialSegment.Proofs.KeyIndex.Unordered

/-!
# An index with a cache answers like one without

Whatever the files hold, calls to an index get the same answers with and without a cache. While the
index runs, its cache is faithful; an index that does not run has no keys to load, so a faithful
cache is empty by then. That is why the cache has to be emptied when the index is stopped, and why
the index may start and close with the cache it has.
-/

namespace SpatialSegment

namespace GuardedFile

variable {fs : FileSystem} {f : GuardedFile}

/-- A use looks at the stage of the service alone, not at its users. -/
theorem use_withService {service : Service} (h : service.status = f.service.status) {α : Type}
    (answer : View → Result α) : ({ f with service } : GuardedFile).use answer = f.use answer := by
  rw [use_eq, use_eq, h]

theorem use_of_not_running (h : f.service.status ≠ .running) {α : Type}
    (answer : View → Result α) : f.use answer = .ok none := by
  rw [use_eq, if_neg h]

end GuardedFile

namespace KeyIndex

variable {fs : FileSystem} {x : KeyIndex} {cache : Option RecentKeys}

theorem offsetAt_withService {service : Service} (h : service.status = x.file.service.status)
    (ordinal : Nat) :
    ({ x with file := { x.file with service } } : KeyIndex).offsetAt fs ordinal =
      x.offsetAt fs ordinal := by
  simp only [offsetAt, GuardedFile.use_withService h]
  rfl

theorem FaithfulCache.withService (faithful : x.FaithfulCache fs cache) {service : Service}
    (h : service.status = x.file.service.status) :
    ({ x with file := { x.file with service } } : KeyIndex).FaithfulCache fs cache := by
  intro c hc ordinal key hmem
  rw [loadKey, offsetAt_withService h]
  exact faithful c hc ordinal key hmem

/-- An index that does not run loads no key. -/
theorem loadKey_ne_of_not_running (h : x.file.service.status ≠ .running) (ordinal : Nat)
    (key : String) : x.loadKey fs ordinal ≠ .ok (some key) := by
  intro hload
  obtain ⟨offset, hoffset, hkey⟩ := bind_eq_ok.mp hload
  cases offset with
  | none => cases hkey
  | some offset =>
    rw [offsetAt] at hoffset
    by_cases hlimit : Word.limit 8 ≤ ordinal * recordLen + FileFormat.bodyStart
    · rw [if_pos hlimit] at hoffset
      cases hoffset
    · rw [if_neg hlimit, GuardedFile.use_of_not_running h] at hoffset
      cases hoffset

/-- The cache of an index that does not run is faithful to all loads, as it is empty. -/
theorem FaithfulCache.of_not_running (faithful : x.FaithfulCache fs cache)
    (h : x.file.service.status ≠ .running) (y : KeyIndex) : y.FaithfulCache fs cache := by
  intro c hc ordinal key hmem
  exact absurd (faithful c hc ordinal key hmem) (loadKey_ne_of_not_running h ordinal key)

theorem faithfulCache_clear (x : KeyIndex) (cache : Option RecentKeys) :
    x.FaithfulCache fs (cache.map RecentKeys.clear) := by
  intro c hc ordinal key hmem
  obtain ⟨c', -, rfl⟩ := Option.map_eq_some_iff.mp hc
  cases hmem

end KeyIndex

namespace CachedIndex

open KeyIndex

/-- The index with an empty cache. -/
def withCache (x : CachedIndex) (capacity : Nat) (capacity_pos : 0 < capacity) : CachedIndex :=
  { x with cache := some ⟨capacity, [], 0, 0, 0, capacity_pos⟩ }

/-- The first index is the second one with a faithful cache; whoever waits for the file to be closed
has begun to stop it. -/
structure Caches (fs : FileSystem) (x y : CachedIndex) : Prop where
  shared : x.shared = y.shared
  log : x.log = y.log
  plain : y.cache = none
  faithful : y.index.FaithfulCache fs x.cache
  waits : y.shared.waiting ≠ none → y.shared.file.service.status = .stopping

variable {fs : FileSystem} {x y : CachedIndex}

theorem Caches.index (caches : Caches fs x y) : x.index = y.index := by
  rw [CachedIndex.index, CachedIndex.index, caches.shared, caches.log]

/-- An answer through the cache is the one without it. -/
theorem Caches.run {α : Type} {steps : Lookup α} {result : Result α} (caches : Caches fs x y)
    (cached : Answers (y.index.FaithfulCache fs) steps result)
    (plain : Answers (· = none) steps result) :
    (x.run steps).1 = (y.run steps).1 ∧ Caches fs (x.run steps).2 (y.run steps).2 := by
  obtain ⟨hanswer, hfaithful⟩ := cached x.cache caches.faithful
  obtain ⟨hanswer', hnone⟩ := plain y.cache caches.plain
  exact ⟨hanswer.trans hanswer'.symm, caches.shared, caches.log, hnone, hfaithful, caches.waits⟩

/-- A new file, in both, to which the cache is faithful. -/
theorem Caches.withShared (caches : Caches fs x y) {shared : SharedFile}
    (faithful : ({ y with shared } : CachedIndex).index.FaithfulCache fs x.cache)
    (waits : shared.waiting ≠ none → shared.file.service.status = .stopping) :
    Caches fs { x with shared } { y with shared } :=
  ⟨rfl, caches.log, caches.plain, faithful, waits⟩

theorem status_of_init (h : y.shared.file.service.status ≠ .stopped) :
    (y.shared.init fs).2 = y.shared := by
  rw [SharedFile.init, GuardedFile.init, Service.transition?, if_neg h]

theorem Caches.init (caches : Caches fs x y) :
    Caches fs { x with shared := (y.shared.init fs).2 }
      { y with shared := (y.shared.init fs).2 } := by
  by_cases hstopped : y.shared.file.service.status = .stopped
  · have hidle : y.shared.file.service.status ≠ .running := by
      rw [hstopped]
      decide
    refine caches.withShared (caches.faithful.of_not_running hidle _) fun hwaiting => ?_
    have hstopping := caches.waits hwaiting
    rw [hstopped] at hstopping
    cases hstopping
  · rw [status_of_init hstopped]
    exact caches.withShared caches.faithful caches.waits

theorem Caches.acquire (caches : Caches fs x y) :
    Caches fs { x with shared := (y.shared.call fs .acquire).2 }
      { y with shared := (y.shared.call fs .acquire).2 } := by
  rw [SharedFile.call, SharedFile.acquire?, GuardedFile.acquire?, Service.acquire?]
  by_cases hrunning : y.shared.file.service.status = .running
  · rw [if_pos hrunning]
    exact caches.withShared (caches.faithful.withService rfl) caches.waits
  · rw [if_neg hrunning]
    exact caches.withShared caches.faithful caches.waits

theorem Caches.finish (caches : Caches fs x y) :
    Caches fs { x with shared := (y.shared.finish fs).2 }
      { y with shared := (y.shared.finish fs).2 } := by
  rw [SharedFile.finish]
  cases hwaiting : y.shared.waiting with
  | none => exact caches.withShared caches.faithful caches.waits
  | some waiting =>
    have hstopping := caches.waits (by rw [hwaiting]; exact Option.some_ne_none _)
    have hidle : y.shared.file.service.status ≠ .running := by
      rw [hstopping]
      decide
    by_cases hused : y.shared.file.service.isUsed = true
    · simp only [if_pos hused]
      exact caches.withShared caches.faithful caches.waits
    · simp only [if_neg hused]
      cases waiting <;>
        exact caches.withShared (caches.faithful.of_not_running hidle _) fun h => absurd rfl h

theorem status_of_beginShutdown {s : SharedFile}
    (waits : s.waiting ≠ none → s.file.service.status = .stopping)
    (h : s.beginShutdown.waiting ≠ none) : s.beginShutdown.file.service.status = .stopping := by
  rw [SharedFile.beginShutdown] at h ⊢
  by_cases hrunning : s.file.service.isRunning = true
  · rw [if_pos hrunning, GuardedFile.stop, Service.transition?, if_pos (eq_of_beq hrunning)]
  · rw [if_neg hrunning] at h ⊢
    exact waits h

/-- Stopping empties the cache first. -/
theorem Caches.shutdown (caches : Caches fs x y) :
    Caches fs x.beginShutdown y.beginShutdown := by
  refine ⟨?_, caches.log, ?_, faithfulCache_clear _ _, status_of_beginShutdown caches.waits⟩
  · exact congrArg SharedFile.beginShutdown caches.shared
  · exact congrArg (Option.map RecentKeys.clear) caches.plain

/-- A call to the file, but for one to stop it. -/
theorem Caches.file (caches : Caches fs x y) (c : SharedFile.Call) (h : c ≠ .shutdown) :
    Caches fs { x with shared := (y.shared.call fs c).2 }
      { y with shared := (y.shared.call fs c).2 } := by
  cases c with
  | init => exact caches.init
  | acquire => exact caches.acquire
  | release => exact caches.withShared (caches.faithful.withService rfl) caches.waits
  | shutdown => exact absurd rfl h
  | finish => exact caches.finish
  | read offset len => exact caches.withShared caches.faithful caches.waits
  | length => exact caches.withShared caches.faithful caches.waits
  | service => exact caches.withShared caches.faithful caches.waits

/-- Every call is answered alike. -/
theorem alike_caches (fs : FileSystem) : Calls.Alike (Caches fs) (call fs) (call fs) := by
  intro x y c caches
  cases c with
  | file c =>
    by_cases hshutdown : c = .shutdown
    · subst hshutdown
      exact ⟨rfl, caches.shutdown⟩
    · rw [call_file x hshutdown, call_file y hshutdown, caches.shared]
      exact ⟨rfl, caches.file c hshutdown⟩
  | length => exact ⟨by simp only [call, caches.index], caches⟩
  | offsetAt ordinal => exact ⟨by simp only [call, caches.index], caches⟩
  | keyAt ordinal =>
    obtain ⟨hanswer, hcaches⟩ :=
      caches.run (answers_keyAt ordinal) (answers_keyAt_none ordinal)
    rw [call, call, caches.index]
    exact ⟨congrArg Answer.key hanswer, hcaches⟩
  | tupleAt ordinal => exact ⟨by simp only [call, caches.index], caches⟩
  | positions key =>
    obtain ⟨hanswer, hcaches⟩ :=
      caches.run (answers_positions key) (answers_positions_of answers_keyAt_none key)
    rw [call, call, caches.index]
    exact ⟨congrArg Answer.positions hanswer, hcaches⟩
  | step cursor => exact ⟨by simp only [call, caches.index], caches⟩

theorem caches_new (fs : FileSystem) (path : Path) (mode : ReadMode) (log : Log) :
    Caches fs (new path mode log) (new path mode log) :=
  ⟨rfl, rfl, rfl, KeyIndex.faithfulCache_none _ _, fun h => absurd rfl h⟩

theorem Caches.withCache (caches : Caches fs x y) (capacity : Nat) (capacity_pos : 0 < capacity) :
    Caches fs (y.withCache capacity capacity_pos) y := by
  refine ⟨rfl, rfl, caches.plain, fun c hc => ?_, caches.waits⟩
  cases hc
  intro ordinal key hmem
  cases hmem

/-- With a cache of any capacity that an index is given, at any time, it answers all further calls
as it does without. -/
theorem cache_does_not_show (fs : FileSystem) (path : Path) (mode : ReadMode) (log : Log)
    (before after : List Call) (capacity : Nat) (capacity_pos : 0 < capacity) :
    let plain := Calls.stateAfter (call fs) (new path mode log) before
    (capacity ≤ RecentKeys.maxCapacity →
      plain.activate capacity = .ok (plain.withCache capacity capacity_pos)) ∧
      Calls.answers (call fs) (plain.withCache capacity capacity_pos) after =
        Calls.answers (call fs) plain after := by
  intro plain
  have caches : Caches fs plain plain :=
    (alike_caches fs).stateAfter (caches_new fs path mode log) before
  refine ⟨fun room => ?_, ?_⟩
  · have hempty : RecentKeys.ofCapacity? capacity = some ⟨capacity, [], 0, 0, 0, capacity_pos⟩ := by
      rw [RecentKeys.ofCapacity?, dif_pos ⟨capacity_pos, room⟩]
    rw [activate, if_neg (Nat.ne_of_gt capacity_pos), hempty, caches.plain]
    rfl
  · exact (alike_caches fs).answers_eq (caches.withCache capacity capacity_pos) after

/-- An index is given a cache for one key and asked for two keys in turn, and once more when it has
been stopped. -/
theorem cache_does_not_show_one :
    let running : Service := ⟨.running, 0, none⟩
    let log : Log := ⟨⟨.tupleLog, ⟨"x.sst"⟩, .mapped, running, some (.mapped logInOrder)⟩⟩
    ∃ fs, 0 < 1 ∧
      let plain := Calls.stateAfter (call fs) (new ⟨"x.idx"⟩ .buffered log) [.file .init]
      let after : List Call := [.keyAt 0, .keyAt 0, .keyAt 1, .keyAt 0, .file .shutdown, .keyAt 0]
      plain.activate 1 = .ok (plain.withCache 1 Nat.one_pos) ∧
        Calls.answers (call fs) (plain.withCache 1 Nat.one_pos) after =
          [.key (.ok (some "b")), .key (.ok (some "b")), .key (.ok (some "a")),
            .key (.ok (some "b")), .file .done, .key (.ok none)] := by
  intro running log
  have hwrite : (FileSystem.empty.write ⟨"x.idx"⟩ []).isOk = true := by decide +kernel
  obtain ⟨fs, stores⟩ : ∃ fs : FileSystem, fs.Stores ⟨"x.idx"⟩ (offsetBytes [38, 10]) :=
    ⟨_, (((FileSystem.vacant_empty _).room_of_isOk hwrite).adds _).new⟩
  obtain ⟨f, hinit, hshows, -⟩ :=
    GuardedFile.exists_init stores (fun n hn => by cases hn; rfl) .buffered
  have hlog : log.file.Shows fs logInOrder := ⟨rfl, _, rfl, View.shows_mapped fs logInOrder⟩
  have points : Points fs ⟨f, log⟩ [38, 10] ["b", "a"] := points_unordered hshows hlog
  refine ⟨fs, Nat.one_pos, ?_⟩
  intro plain after
  have hplain : plain = ⟨⟨f, none⟩, log, none⟩ := by
    simp only [plain, Calls.stateAfter, call, SharedFile.call, SharedFile.init, new, SharedFile.new,
      hinit]
  obtain ⟨hactivate, hanswers⟩ :=
    cache_does_not_show fs ⟨"x.idx"⟩ .buffered log [.file .init] after 1 Nat.one_pos
  refine ⟨hactivate (by decide), hanswers.trans ?_⟩
  change Calls.answers (call fs) plain after = _
  have hfirst : KeyIndex.loadKey fs ⟨f, log⟩ 0 = .ok (some "b") := points.tells 0 "b" rfl
  have hsecond : KeyIndex.loadKey fs ⟨f, log⟩ 1 = .ok (some "a") := points.tells 1 "a" rfl
  have hstopped : KeyIndex.loadKey fs ⟨(SharedFile.beginShutdown ⟨f, none⟩).file, log⟩ 0 =
      .ok none := by
    have hstop : SharedFile.beginShutdown ⟨f, none⟩ = ⟨f.stop, some .shutdown⟩ :=
      if_pos (beq_iff_eq.mpr hshows.running)
    have hidle : f.stop.service.status ≠ .running := by
      rw [GuardedFile.stop, Service.transition?, if_pos hshows.running]
      intro h
      cases h
    rw [hstop, loadKey, offsetAt, if_neg (by decide), GuardedFile.use_of_not_running hidle]
    rfl
  rw [hplain]
  change [Answer.key (KeyIndex.loadKey fs ⟨f, log⟩ 0), .key (KeyIndex.loadKey fs ⟨f, log⟩ 0),
    .key (KeyIndex.loadKey fs ⟨f, log⟩ 1), .key (KeyIndex.loadKey fs ⟨f, log⟩ 0), .file .done,
    .key (KeyIndex.loadKey fs ⟨(SharedFile.beginShutdown ⟨f, none⟩).file, log⟩ 0)] = _
  rw [hfirst, hsecond, hstopped]

end CachedIndex

end SpatialSegment
