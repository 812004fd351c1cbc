import SpatialSegment.Proofs.RTree.Mirrored
import SpatialSegment.Proofs.RTree.RoundTrip

/-!
# Reloading does not show

Names of positions do not show in the file of an index: what is written of an index under other
names is the same, errors included. So an index may be replaced by what is read from its file
between any two insertions. It takes the same entries, answers every region with the same list and
is written as the same bytes.
-/

namespace SpatialSegment

namespace RTree

/-! ## Writing under new names -/

theorem Node.head_rename (π : Nat → Nat) (max : Nat) (n : Node) :
    (n.rename π).head max = n.head max := by
  simp only [Node.head, Node.entries_rename]
  rfl

/-- The first pass with other names in the nodes whose words are still blank. -/
def FirstPass.rename (π : Nat → Nat) (p : FirstPass) : FirstPass :=
  { p with patches := p.patches.map fun patch => (patch.1, patch.2.rename π) }

theorem FirstPass.writeAll_rename (π : Nat → Nat) (max : Nat) (nodes : List Node) (p : FirstPass) :
    (p.rename π).writeAll max (nodes.map (Node.rename π)) =
      ((p.writeAll max nodes).1.rename π, (p.writeAll max nodes).2) := by
  induction nodes generalizing p with
  | nil => rfl
  | cons n nodes ih =>
    rw [List.map_cons, writeAll, writeAll, Node.head_rename]
    cases n.head max with
    | error cause => rfl
    | ok head =>
      have hwrite : (p.rename π).write max (n.rename π) head = (p.write max n head).rename π := by
        simp only [FirstPass.write, FirstPass.rename, List.map_append]
        rfl
      simp only [hwrite]
      exact ih (p.write max n head)

/-- The words that are still blank are those of the nodes that have been written. -/
theorem FirstPass.mem_of_patches {max : Nat} {nodes : List Node} {p : FirstPass}
    {patch : Nat × Node} (h : patch ∈ (p.writeAll max nodes).1.patches) :
    patch ∈ p.patches ∨ patch.2 ∈ nodes := by
  induction nodes generalizing p with
  | nil => exact .inl h
  | cons n nodes ih =>
    rw [writeAll] at h
    cases hhead : n.head max with
    | error cause =>
      rw [hhead] at h
      exact .inl h
    | ok head =>
      rw [hhead] at h
      rcases ih h with hold | hlater
      · rcases List.mem_append.mp hold with hold | hnew
        · exact .inl hold
        · rw [List.mem_singleton.mp hnew]
          exact .inr List.mem_cons_self
      · exact .inr (List.mem_cons_of_mem n hlater)

namespace Arena

variable {a b : Arena} {π : Nat → Nat}

theorem Renames.idAt_eq (renames : Renames π a b) {i : Nat} (hi : i < a.length) :
    b.idAt (π i) = a.idAt i := by
  have hn : a[i]? = some a[i] := List.getElem?_eq_getElem hi
  rw [idAt, idAt, renames.node hn, hn]
  rfl

/-- The second pass fills in the same words under the new names. -/
theorem Renames.fillInAll_eq (renames : Renames π a b) (places : List (Nat × Nat)) (file : Bytes)
    {patches : List (Nat × Node)}
    (inside : ∀ patch ∈ patches, ∀ c ∈ patch.2.children, c < a.length) :
    b.fillInAll places file (patches.map fun patch => (patch.1, patch.2.rename π)) =
      a.fillInAll places file patches := by
  induction patches generalizing file with
  | nil => rfl
  | cons patch patches ih =>
    obtain ⟨offset, n⟩ := patch
    have hids : (n.rename π).children.map b.idAt = n.children.map a.idAt := by
      rw [Node.children_rename, List.map_map]
      exact List.map_congr_left fun c hc => renames.idAt_eq (inside _ List.mem_cons_self c hc)
    have hrest := fun file =>
      ih file fun patch hpatch => inside patch (List.mem_cons_of_mem _ hpatch)
    rw [List.map_cons, fillInAll, fillInAll, hids]
    rcases fillIn places file offset (n.children.map a.idAt) with ⟨file, _ | _⟩
    · rfl
    · exact hrest file

/-- The way level by level is the same under the new names. -/
theorem Renames.breadthFirst_eq (renames : Renames π a b) {max : Nat}
    (bounded : ∀ {i : Nat} {n : Node}, a[i]? = some n → n.size ≤ max) {queue order : List Nat}
    (h : a.breadthFirst max queue = some order) :
    b.breadthFirst max (queue.map π) = some (order.map π) := by
  refine breadthFirst_induction bounded (P := fun queue order =>
    b.breadthFirst max (queue.map π) = some (order.map π)) breadthFirst_nil ?_ h
  intro i n queue order hi ih
  have htake : (n.children.map π).take max = n.children.map π := by
    apply List.take_of_length_le
    rw [List.length_map]
    exact n.length_children_le.trans (bounded hi)
  rw [List.map_append] at ih
  rw [List.map_cons, breadthFirst]
  simp only [renames.node hi, Node.children_rename, htake, ih]
  rfl

end Arena

section

variable {π : Nat → Nat} {plain t : RTree}

theorem Mirrors.storedNodes_eq (mirrors : Mirrors π plain t) (sound : Sound plain) :
    t.storedNodes = plain.storedNodes.map (Node.rename π) := by
  obtain ⟨horder, levels⟩ := sound.linked.levels sound.bounded
  have horder' := mirrors.arena.breadthFirst_eq sound.bounded horder
  rw [List.map_singleton, mirrors.arena.root] at horder'
  rw [storedNodes, storedNodes, mirrors.maxNodeSize, horder, horder', Option.getD_some,
    Option.getD_some, List.filterMap_map, List.map_filterMap]
  refine List.filterMap_congr fun i hi => ?_
  have hlt := levels.lt_of_mem hi
  have hn : plain.nodes[i]? = some plain.nodes[i] := List.getElem?_eq_getElem hlt
  rw [Function.comp_apply, mirrors.arena.node hn, hn]
  rfl

/-- Both indexes are written as the same bytes, or fail with the same cause. -/
theorem Mirrors.toBytes_eq (mirrors : Mirrors π plain t) (sound : Sound plain) :
    t.toBytes = plain.toBytes := by
  have himage : t.image = plain.image := by
    rw [image, image, mirrors.maxNodeSize, mirrors.storedNodes_eq sound]
    by_cases hlarge : Word.maxSigned32 < plain.maxNodeSize
    · rw [if_pos hlarge, if_pos hlarge]
    · rw [if_neg hlarge, if_neg hlarge]
      have hwrite := FirstPass.writeAll_rename π plain.maxNodeSize plain.storedNodes
        ⟨preamble plain.maxNodeSize, [], []⟩
      change FirstPass.writeAll plain.maxNodeSize ⟨preamble plain.maxNodeSize, [], []⟩
        (plain.storedNodes.map (Node.rename π)) = _ at hwrite
      simp only [hwrite]
      rcases hfirst : FirstPass.writeAll plain.maxNodeSize ⟨preamble plain.maxNodeSize, [], []⟩
        plain.storedNodes with ⟨pass, _ | _⟩
      · rfl
      · refine mirrors.arena.fillInAll_eq pass.places pass.file fun patch hpatch c hc => ?_
        rcases FirstPass.mem_of_patches (hfirst ▸ hpatch) with hnone | hmem
        · cases hnone
        · obtain ⟨i, hi⟩ := exists_getElem?_of_mem_storedNodes hmem
          exact (sound.linked.child_lt hi hc).2
  rw [toBytes, toBytes, himage]

/-! ## Reloading -/

/-- The index that is read from the file of an index. -/
def reload (t : RTree) : Option RTree := do
  let bytes ← t.toBytes.toOption
  (ofBytes bytes).toOption

/-- What is done with an index: an entry is inserted, or the index is replaced by what is read from
its file. -/
inductive Step where
  | insert (e : Entry)
  | reload

def Step.run (t : RTree) : Step → Option RTree
  | .insert e => some (t.insert e)
  | .reload => t.reload

/-- The step with an index that is never reloaded. -/
def Step.runPlain (t : RTree) : Step → RTree
  | .insert e => t.insert e
  | .reload => t

/-- The entry that comes with the step. -/
def Step.entry? : Step → Option Entry
  | .insert e => some e
  | .reload => none

/-- An index that is never reloaded comes from the insertions alone. -/
theorem foldl_runPlain (t : RTree) (steps : List Step) :
    steps.foldl Step.runPlain t = (steps.filterMap Step.entry?).foldl RTree.insert t := by
  induction steps generalizing t with
  | nil => rfl
  | cons step steps ih =>
    cases step with
    | insert e => exact ih (t.insert e)
    | reload => exact ih t

/-- What is read from the file differs from the plain index in names only. -/
theorem Mirrors.reload (mirrors : Mirrors π plain t) (sound : Sound plain)
    (storable : Storable plain) : ∃ t' π', t.reload = some t' ∧ Mirrors π' plain t' := by
  have same := sound.sameIndex
  refine ⟨_, _, ?_, same.arena, same.maxNodeSize, same.nextId, same.length⟩
  rw [RTree.reload, mirrors.toBytes_eq sound, storable.toBytes_eq]
  change (ofBytes _).toOption = _
  rw [storable.ofBytes_eq]
  rfl

theorem Mirrors.step (mirrors : Mirrors π plain t) (sound : Sound plain) (step : Step)
    (fits : step = .reload → FitsFormat plain) :
    ∃ t' π', step.run t = some t' ∧ Mirrors π' (step.runPlain plain) t' ∧
      Sound (step.runPlain plain) := by
  cases step with
  | insert e =>
    obtain ⟨π', hmirrors⟩ := mirrors.insert sound e
    exact ⟨_, π', rfl, hmirrors, (sound.insert e).1⟩
  | reload =>
    obtain ⟨hoffsets, hsize⟩ := fits rfl
    obtain ⟨t', π', hreload, hmirrors⟩ :=
      mirrors.reload sound (sound.storable_of_size hoffsets hsize)
    exact ⟨t', π', hreload, hmirrors, sound⟩

theorem Mirrors.steps (mirrors : Mirrors π plain t) (sound : Sound plain) (steps : List Step)
    (fits : ∀ done rest, steps = done ++ .reload :: rest →
      FitsFormat (done.foldl Step.runPlain plain)) :
    ∃ t' π', steps.foldlM Step.run t = some t' ∧
      Mirrors π' (steps.foldl Step.runPlain plain) t' ∧
        Sound (steps.foldl Step.runPlain plain) := by
  induction steps generalizing π plain t with
  | nil => exact ⟨t, π, rfl, mirrors, sound⟩
  | cons step steps ih =>
    obtain ⟨t', π', hstep, hmirrors, hsound⟩ := mirrors.step sound step (by
      rintro rfl
      exact fits [] steps rfl)
    obtain ⟨t'', π'', hsteps, hmirrors', hsound'⟩ := ih hmirrors hsound (by
      rintro done rest rfl
      exact fits (step :: done) rest rfl)
    refine ⟨t'', π'', ?_, hmirrors', hsound'⟩
    rw [List.foldlM_cons, hstep]
    exact hsteps

end

/-- An index that is reloaded now and then cannot be told from one that never is: after every step
both take the same entries, for which both have a place, answer every region with the same list, and
are written as the same bytes, as long as what is reloaded fits the format. -/
theorem reload_transparent (maxNodeSize : Nat) (two_le : 2 ≤ maxNodeSize) (steps : List Step)
    (fits : ∀ done rest, steps = done ++ .reload :: rest →
      FitsFormat (done.foldl Step.runPlain (empty maxNodeSize two_le))) :
    ∀ done rest, steps = done ++ rest →
      let plain := done.foldl Step.runPlain (empty maxNodeSize two_le)
      ∃ t, done.foldlM Step.run (empty maxNodeSize two_le) = some t ∧
        (∀ e, t.accepts e = plain.accepts e) ∧
        (∀ e, plain.accepts e = true → (t.place e).isSome ∧ (plain.place e).isSome) ∧
        (∀ region, t.query region = plain.query region) ∧
        t.toBytes = plain.toBytes ∧ (FitsFormat plain → ∃ bytes, t.toBytes = .ok bytes) := by
  rintro done rest rfl plain
  obtain ⟨t, π, hrun, mirrors, sound⟩ :=
    (Mirrors.refl _).steps (sound_empty maxNodeSize two_le) done fun before after h =>
      fits before (after ++ rest) (by rw [h, List.append_assoc]; rfl)
  refine ⟨t, hrun, mirrors.accepts_eq sound.linked, ?_, mirrors.query_eq sound.linked,
    mirrors.toBytes_eq sound, ?_⟩
  · intro e h
    obtain ⟨t', -, hplace, -⟩ := mirrors.place sound h
    rw [hplace, place_eq_insert sound h]
    exact ⟨rfl, rfl⟩
  · rintro ⟨hoffsets, hsize⟩
    rw [mirrors.toBytes_eq sound]
    exact ⟨_, (sound.storable_of_size hoffsets hsize).toBytes_eq⟩

/-- A leaf with two points is reloaded and divided by a third one, and what has been divided is
reloaded again. -/
theorem reload_transparent_three :
    let steps := (threePoints.take 2).map Step.insert ++
      .reload :: (threePoints.drop 2).map Step.insert ++ [.reload]
    let plain := threePoints.foldl RTree.insert (empty 2 (by decide))
    1 < plain.nodeCount ∧ ∃ t, steps.foldlM Step.run (empty 2 (by decide)) = some t ∧
      (∀ region, t.query region = plain.query region) ∧ t.toBytes = plain.toBytes := by
  intro steps plain
  have hinserted : threePoints = steps.filterMap Step.entry? := rfl
  have fits : ∀ done rest, steps = done ++ .reload :: rest →
      FitsFormat (done.foldl Step.runPlain (empty 2 (by decide))) := by
    intro done rest hsteps
    rw [foldl_runPlain]
    refine fitsFormat_threePoints ⟨(Step.reload :: rest).filterMap Step.entry?, ?_⟩
    rw [hinserted, hsteps, List.filterMap_append]
  obtain ⟨t, hrun, -, -, hquery, hbytes, -⟩ :=
    reload_transparent 2 (by decide) steps fits steps [] (List.append_nil _).symm
  exact ⟨one_lt_nodeCount_threePoints, t, hrun, hquery, hbytes⟩

end RTree

end SpatialSegment
