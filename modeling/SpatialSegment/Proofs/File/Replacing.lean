import SpatialSegment.Proofs.File.Directories
import SpatialSegment.Proofs.File.Removal

/-!
# Writing over files

A file that is at one location only can be written over, and whatever is at other locations stays as
it is. Directories that are made change no file.
-/

namespace SpatialSegment

namespace FileSystem

variable {fs fs' : FileSystem} {p : Path} {bs : Bytes} {l : Location}

/-- A file at the location, if there is one, is at no other location. -/
def Alone (fs : FileSystem) (l : Location) : Prop :=
  ∀ id, fs.placeAt l = some (.file id) → id < fs.contents.length ∧
    ∀ l', fs.placeAt l' = some (.file id) → l' = l

/-- The content of the file at the location, if there is one. -/
def contentAt (fs : FileSystem) (l : Location) : Option Bytes :=
  match fs.placeAt l with
  | some (.file id) => some (fs.content id)
  | _ => none

theorem Vacant.alone (vacant : fs.Vacant l) : fs.Alone l :=
  fun id hid => absurd hid (vacant id)

theorem contentAt_eq_none_iff : fs.contentAt l = none ↔ fs.Vacant l := by
  rw [contentAt, Vacant]
  constructor
  · intro h id hid
    rw [hid] at h
    cases h
  · intro vacant
    split
    · rename_i id hid
      exact absurd hid (vacant id)
    · rfl

theorem Stores.contentAt (stores : fs.Stores p bs) : fs.contentAt p.location = some bs := by
  obtain ⟨l, id, leads, hplace, -, rfl⟩ := stores
  obtain rfl := leads.eq_location
  rw [FileSystem.contentAt, hplace]

/-- A file that is there after one has been created is that one, or was there before. -/
theorem placeAt_create_file {l' : Location} {id : Nat}
    (h : (fs.create l bs).placeAt l' = some (.file id)) :
    l' = l ∧ id = fs.contents.length ∨ l' ≠ l ∧ fs.placeAt l' = some (.file id) := by
  by_cases heq : l' = l
  · subst heq
    rw [placeAt_create] at h
    split at h
    · cases h
    · rw [if_pos rfl] at h
      cases h
      exact Or.inl ⟨rfl, rfl⟩
  · rw [placeAt_create_of_ne heq] at h
    exact Or.inr ⟨heq, h⟩

/-- Where there was no file, one that is created is at one location only. -/
theorem alone_create (none : ∀ l, fs.Vacant l) (l : Location) (bs : Bytes) (l' : Location) :
    (fs.create l bs).Alone l' := by
  intro id hid
  rcases placeAt_create_file hid with ⟨rfl, rfl⟩ | ⟨-, hold⟩
  · refine ⟨?_, fun l'' hl'' => ?_⟩
    · rw [FileSystem.create, List.length_append]
      exact Nat.lt_succ_self _
    · rcases placeAt_create_file hl'' with ⟨heq, -⟩ | ⟨-, hold⟩
      · exact heq
      · exact absurd hold (none l'' _)
  · exact absurd hold (none l' id)

/-- Files away from the location stay as they are. -/
structure Elsewhere (l : Location) (fs fs' : FileSystem) : Prop where
  stores : ∀ {q : Path} {bs : Bytes}, fs.Stores q bs → q.location ≠ l → fs'.Stores q bs
  alone : ∀ {l' : Location}, fs.Alone l' → l' ≠ l →
    fs'.Alone l' ∧ fs'.contentAt l' = fs.contentAt l'

theorem Elsewhere.refl (l : Location) (fs : FileSystem) : Elsewhere l fs fs :=
  ⟨fun stores _ => stores, fun alone _ => ⟨alone, rfl⟩⟩

theorem elsewhere_create (hnone : fs.placeAt l = none) (bs : Bytes) :
    Elsewhere l fs (fs.create l bs) := by
  refine ⟨fun stores _ => stores.create hnone bs, ?_⟩
  intro l' alone hne
  refine ⟨fun id hid => ?_, ?_⟩
  · rw [placeAt_create_of_ne hne] at hid
    obtain ⟨hlt, honly⟩ := alone id hid
    refine ⟨?_, fun l'' hl'' => ?_⟩
    · rw [FileSystem.create, List.length_append]
      omega
    · rcases placeAt_create_file hl'' with ⟨-, rfl⟩ | ⟨-, hold⟩
      · exact absurd hlt (Nat.lt_irrefl _)
      · exact honly l'' hold
  · rw [FileSystem.contentAt, FileSystem.contentAt, placeAt_create_of_ne hne]
    split
    · rename_i id hid
      rw [content_create (alone id hid).1]
    · rfl

theorem content_setContent_of_ne {id id' : Nat} (h : id' ≠ id) (bs : Bytes) :
    (fs.setContent id bs).content id' = fs.content id' := by
  simp only [content, setContent, List.getD_eq_getElem?_getD, List.getElem?_set_ne (Ne.symm h)]

theorem placeAt_setContent (id : Nat) (bs : Bytes) (l : Location) :
    (fs.setContent id bs).placeAt l = fs.placeAt l := rfl

theorem length_setContent (id : Nat) (bs : Bytes) :
    (fs.setContent id bs).contents.length = fs.contents.length :=
  List.length_set

theorem elsewhere_setContent {id : Nat} (alone : fs.Alone l) (hid : fs.placeAt l = some (.file id))
    (bs : Bytes) : Elsewhere l fs (fs.setContent id bs) := by
  have hother : ∀ {l' : Location} {id' : Nat}, fs.placeAt l' = some (.file id') → l' ≠ l →
      id' ≠ id := by
    rintro l' id' hplace hne rfl
    exact hne ((alone id' hid).2 l' hplace)
  constructor
  · rintro q content ⟨l', id', leads, hplace, hlt, rfl⟩ hne
    obtain rfl := leads.eq_location
    have keeps : Keeps fs (fs.setContent id bs) := fun _ _ h => h
    refine ⟨_, id', leads.keeps keeps, hplace, ?_, content_setContent_of_ne (hother hplace hne) bs⟩
    rw [length_setContent]
    exact hlt
  · intro l' alone' hne
    constructor
    · intro id' hid'
      obtain ⟨hlt, honly⟩ := alone' id' hid'
      rw [length_setContent]
      exact ⟨hlt, honly⟩
    · rw [FileSystem.contentAt, FileSystem.contentAt, placeAt_setContent]
      split
      · rename_i id' hid'
        rw [content_setContent_of_ne (hother hid' hne)]
      · rfl

/-- A file that is at one location only is written over. -/
theorem Alone.write (alone : fs.Alone p.location) (h : fs.write p bs = .ok fs') :
    fs'.Stores p bs ∧ Elsewhere p.location fs fs' := by
  obtain ⟨l, leads, ⟨hnone, rfl⟩ | ⟨id, hid, rfl⟩⟩ := exists_leads_of_write h
  · obtain rfl := leads.eq_location
    have room : fs.Room p := ⟨leads, hnone⟩
    exact ⟨(room.adds bs).new, elsewhere_create hnone bs⟩
  · obtain rfl := leads.eq_location
    refine ⟨?_, elsewhere_setContent alone hid bs⟩
    have hlt := (alone id hid).1
    have keeps : Keeps fs (fs.setContent id bs) := fun _ _ h => h
    refine ⟨_, id, leads.keeps keeps, hid, ?_, ?_⟩
    · rw [length_setContent]
      exact hlt
    · rw [content, setContent, List.getD_eq_getElem?_getD, List.getElem?_set_self hlt]
      rfl

/-! ## One file after the other -/

/-- Of files that are all at locations of their own those that are done hold what was written, and
those that are left are as they were in the first file system. -/
structure Progress (fs fs' : FileSystem) (done : List (Path × Bytes)) (left : List Path) :
    Prop where
  apart : (left.map Path.location).Nodup
  passed : ∀ d ∈ done, d.1.location ∉ left.map Path.location
  stored : ∀ d ∈ done, fs'.Stores d.1 d.2
  alone : ∀ q ∈ left, fs'.Alone q.location
  kept : ∀ q ∈ left, fs'.contentAt q.location = fs.contentAt q.location

variable {done : List (Path × Bytes)} {left left' : List Path}

theorem Progress.start (apart : (left.map Path.location).Nodup)
    (alone : ∀ q ∈ left, fs.Alone q.location) : Progress fs fs [] left :=
  ⟨apart, List.forall_mem_nil _, List.forall_mem_nil _, alone, fun _ _ => rfl⟩

/-- The files that are left can be written in any order. -/
theorem Progress.perm (progress : Progress fs fs' done left) (h : left.Perm left') :
    Progress fs fs' done left' := by
  have hmap := h.map Path.location
  refine ⟨hmap.nodup_iff.mp progress.apart, fun d hd hmem => ?_, progress.stored,
    fun q hq => progress.alone q (h.mem_iff.mpr hq), fun q hq => progress.kept q (h.mem_iff.mpr hq)⟩
  exact progress.passed d hd (hmap.mem_iff.mpr hmem)

/-- A file that is left is written. -/
theorem Progress.write {fs'' : FileSystem} (progress : Progress fs fs' done (p :: left))
    (h : fs'.write p bs = .ok fs'') : Progress fs fs'' ((p, bs) :: done) left := by
  obtain ⟨hnew, apart⟩ := List.nodup_cons.mp progress.apart
  obtain ⟨stores, elsewhere⟩ := (progress.alone p List.mem_cons_self).write h
  have hother : ∀ q ∈ left, q.location ≠ p.location :=
    fun q hq heq => hnew (heq ▸ List.mem_map_of_mem hq)
  have hleft : ∀ q ∈ left, fs''.Alone q.location ∧
      fs''.contentAt q.location = fs'.contentAt q.location :=
    fun q hq => elsewhere.alone (progress.alone q (List.mem_cons_of_mem p hq)) (hother q hq)
  refine ⟨apart, ?_, ?_, fun q hq => (hleft q hq).1, fun q hq =>
    (hleft q hq).2.trans (progress.kept q (List.mem_cons_of_mem p hq))⟩
  · refine List.forall_mem_cons.mpr ⟨hnew, fun d hd hmem => ?_⟩
    exact progress.passed d hd (List.mem_cons_of_mem _ hmem)
  · refine List.forall_mem_cons.mpr ⟨stores, fun d hd => ?_⟩
    refine elsewhere.stores (progress.stored d hd) fun heq => ?_
    exact progress.passed d hd (heq ▸ List.mem_cons_self)

/-! ## Directories -/

theorem placeAt_makeDirectories_iff {id : Nat} (q : Path) :
    (fs.makeDirectories q).2.placeAt l = some (.file id) ↔ fs.placeAt l = some (.file id) :=
  ⟨noNewFile_makeDirectories q l id, keeps_makeDirectories q l _⟩

theorem Alone.makeDirectories (alone : fs.Alone l) (q : Path) :
    (fs.makeDirectories q).2.Alone l := by
  intro id hid
  obtain ⟨hlt, honly⟩ := alone id ((placeAt_makeDirectories_iff q).mp hid)
  rw [contents_makeDirectories]
  exact ⟨hlt, fun l' hl' => honly l' ((placeAt_makeDirectories_iff q).mp hl')⟩

theorem contentAt_makeDirectories (q : Path) :
    (fs.makeDirectories q).2.contentAt l = fs.contentAt l := by
  cases h : fs.contentAt l with
  | none =>
    rw [contentAt_eq_none_iff] at h ⊢
    exact h.of_noNewFile (noNewFile_makeDirectories q)
  | some bs =>
    rw [contentAt] at h
    split at h
    · rename_i id hid
      have hcontent : (fs.makeDirectories q).2.content id = fs.content id := by
        rw [content, content, contents_makeDirectories]
      rw [contentAt, (placeAt_makeDirectories_iff q).mpr hid, ← h, ← hcontent]
    · cases h

/-! ## Files side by side -/

/-- The path of a file in a directory can be followed if no zero is in it and it is not too long. -/
theorem ofPath_join_iff {base : Path} (hbase : base.text.toList ≠ []) {name : String}
    (isName : IsFileName name) :
    Route.ofPath (base.join name) =
        .ok ⟨⟨base.startsAtRoot, []⟩, .into name :: base.steps.reverse, false⟩ ↔
      '\x00' ∉ (base.join name).text.toList ∧
        (base.join name).text.utf8ByteSize ≤ Route.maxPathLen := by
  have hempty : (base.join name).text ≠ "" := by
    intro h
    exact Path.toList_join_ne_nil isName.2.2 base (by rw [h]; rfl)
  have hslash : (base.join name).endsInSlash = false := by
    rw [← isName.2.1, Path.endsInSlash, Path.endsInSlash, Path.toList_join,
      List.getLast?_append_of_ne_nil _ isName.2.2]
  rw [Route.ofPath, Path.reverse_steps_join isName, hslash, Path.startsAtRoot_join hbase]
  by_cases hzero : '\x00' ∈ (base.join name).text.toList
  · simp [hzero]
  · by_cases hlong : Route.maxPathLen < (base.join name).text.utf8ByteSize
    · simp [hzero, hlong, hempty, Nat.not_le.mpr hlong]
    · simp [hzero, hlong, hempty, Nat.not_lt.mp hlong]

theorem utf8ByteSize_join_le {base : Path} {a b : String} (h : b.utf8ByteSize ≤ a.utf8ByteSize) :
    (base.join b).text.utf8ByteSize ≤ (base.join a).text.utf8ByteSize := by
  unfold Path.join
  split <;> simp only [String.utf8ByteSize_append] <;> omega

theorem zero_notMem_join {base : Path} {a b : String}
    (h : '\x00' ∈ b.toList → '\x00' ∈ a.toList)
    (ha : '\x00' ∉ (base.join a).text.toList) : '\x00' ∉ (base.join b).text.toList := by
  rw [Path.toList_join] at ha ⊢
  intro hmem
  rcases List.mem_append.mp hmem with hfront | hb
  · exact ha (List.mem_append_left _ hfront)
  · exact ha (List.mem_append_right _ (h hb))

/-- Where the path of a file can be followed, so can that of a file beside it whose name is not
longer. -/
theorem Leads.beside {base : Path} (hbase : base.text.toList ≠ []) {a b : String}
    (isName : IsFileName a) (isName' : IsFileName b) (hsize : b.utf8ByteSize ≤ a.utf8ByteSize)
    (hzero : '\x00' ∈ b.toList → '\x00' ∈ a.toList) (leads : fs.Leads (base.join a) l) :
    fs.Leads (base.join b) (base.join b).location := by
  obtain ⟨start, name, above, directory, hroute, hwalk, hname, -⟩ := leads
  have hof := ofPath_eq_ok hroute
  rw [Path.reverse_steps_join isName, Path.startsAtRoot_join hbase] at hof
  injection hof with hstart hcons hwants
  injection hcons with hinto habove
  injection hinto with hname'
  subst hstart habove hname'
  obtain ⟨hnone, hfits⟩ := (ofPath_join_iff hbase isName).mp hroute
  have hroute' := (ofPath_join_iff hbase isName').mpr
    ⟨zero_notMem_join hzero hnone, Nat.le_trans (utf8ByteSize_join_le hsize) hfits⟩
  exact ⟨_, b, _, directory, hroute', hwalk, Nat.le_trans hsize hname,
    (below_eq_location hroute' rfl hwalk).symm⟩

/-- What is read at a path whose directory is there is what its location holds. -/
theorem Leads.contentAt_eq (leads : fs.Leads p p.location) :
    fs.contentAt p.location = (fs.read p).toOption := by
  rw [contentAt, FileSystem.read]
  cases hplace : fs.placeAt p.location with
  | none =>
    rw [leads.find_none hplace]
    rfl
  | some place =>
    rw [leads.find hplace]
    cases place <;> rfl

end FileSystem

end SpatialSegment
