import Mathlib.Data.List.Basic
import SpatialSegment.File.System
import SpatialSegment.Proofs.Text.Split

/-!
# The steps of a joined path

The steps of a path below another one are those of both, one after the other. Where a path starts is
decided by its front and whether it asks for a directory by its end.

The location of a path is where its steps lead if all directories on the way are there.
-/

namespace SpatialSegment

namespace Path

/-- A slash between the texts, unless the first one is empty or ends in a slash. -/
theorem toList_join (base : Path) (part : String) :
    (base.join part).text.toList =
      (if base.text.toList = [] ∨ base.text.toList.getLast? = some '/' then base.text.toList
        else base.text.toList ++ ['/']) ++ part.toList := by
  have hempty : base.text = "" ↔ base.text.toList = [] := by
    constructor
    · intro h
      rw [h]
      rfl
    · intro h
      exact String.toList_injective h
  rw [join]
  by_cases h : base.text = "" ∨ base.text.toList.getLast? = some '/'
  · rw [if_pos h, if_pos (h.imp_left hempty.mp), String.toList_append]
  · rw [if_neg h, if_neg fun h' => h (h'.imp_left hempty.mpr), String.toList_append,
      String.toList_append]
    rfl

theorem steps_join (base : Path) (part : String) :
    (base.join part).steps = base.steps ++ (Path.mk part).steps := by
  rw [steps, toList_join, steps, steps]
  by_cases hempty : base.text.toList = []
  · rw [if_pos (Or.inl hempty), hempty]
    rfl
  · by_cases hslash : base.text.toList.getLast? = some '/'
    · obtain ⟨front, hfront⟩ := List.getLast?_eq_some_iff.mp hslash
      rw [if_pos (Or.inr hslash), hfront, List.append_assoc, List.singleton_append,
        Text.splitOn_append, Text.splitOn_append, List.filterMap_append, List.filterMap_append]
      simp [Text.splitOn, step?]
    · have hneither : ¬ (base.text.toList = [] ∨ base.text.toList.getLast? = some '/') := by
        rintro (h | h)
        · exact hempty h
        · exact hslash h
      rw [if_neg hneither, List.append_assoc, List.singleton_append, Text.splitOn_append,
        List.filterMap_append]

theorem startsAtRoot_join {base : Path} (h : base.text.toList ≠ []) (part : String) :
    (base.join part).startsAtRoot = base.startsAtRoot := by
  rw [startsAtRoot, toList_join, startsAtRoot]
  cases hbase : base.text.toList with
  | nil => exact absurd hbase h
  | cons c cs => split <;> rfl

theorem toList_join_ne_nil {part : String} (h : part.toList ≠ []) (base : Path) :
    (base.join part).text.toList ≠ [] := by
  rw [toList_join]
  intro hnil
  exact h (List.append_eq_nil_iff.mp hnil).2

/-- What may stand between two slashes and does not go up. -/
structure IsPart (part : String) : Prop where
  ne_nil : part.toList ≠ []
  slash : '/' ∉ part.toList
  ne_up : part.toList ≠ ['.', '.']

section

variable {part : String}

theorem steps_part (isPart : IsPart part) :
    (Path.mk part).steps = [if part = "." then .stay else .into part] := by
  have hstep : step? part.toList = some (if part = "." then .stay else .into part) := by
    unfold step?
    split
    · exact absurd ‹_› isPart.ne_nil
    · rename_i hdot
      rw [if_pos (String.toList_injective hdot)]
    · exact absurd ‹_› isPart.ne_up
    · rename_i hdot _
      rw [if_neg fun h => hdot (congrArg String.toList h), String.ofList_toList]
  rw [steps, Text.splitOn_of_notMem isPart.slash, List.filterMap_cons_some hstep]
  rfl

/-- Behind the empty text a part stays a relative path. -/
theorem startsAtRoot_join_part (isPart : IsPart part) (base : Path) :
    (base.join part).startsAtRoot = base.startsAtRoot := by
  by_cases hbase : base.text.toList = []
  · have hjoin : (base.join part).text.toList = part.toList := by
      rw [toList_join, if_pos (.inl hbase), hbase, List.nil_append]
    rw [startsAtRoot, startsAtRoot, hjoin, hbase]
    apply decide_eq_false
    intro hhead
    exact isPart.slash (List.mem_of_head? hhead)
  · exact startsAtRoot_join hbase part

end

end Path

/-! ## Locations -/

/-- Where a step leads. -/
def Location.step (l : Location) : PathStep → Location
  | .stay => l
  | .up => l.above
  | .into name => l.below name

/-- Where steps lead, the last one first. -/
def Location.steps (start : Location) (steps : List PathStep) : Location :=
  steps.foldr (fun step l => l.step step) start

/-- Where a path leads if all directories on the way are there. -/
def Path.location (p : Path) : Location :=
  Location.steps ⟨p.startsAtRoot, []⟩ p.steps.reverse

/-- A name that is one step into what has it. -/
def IsFileName (name : String) : Prop :=
  (Path.mk name).steps = [.into name] ∧ (Path.mk name).endsInSlash = false ∧ name.toList ≠ []

theorem Path.reverse_steps_join {base : Path} {name : String} (isName : IsFileName name) :
    (base.join name).steps.reverse = .into name :: base.steps.reverse := by
  rw [steps_join, isName.1, List.reverse_append]
  rfl

theorem Path.location_join {base : Path} (h : base.text.toList ≠ []) {name : String}
    (isName : IsFileName name) : (base.join name).location = base.location.below name := by
  rw [location, reverse_steps_join isName, startsAtRoot_join h]
  rfl

theorem Location.below_injective {l : Location} {a b : String} (h : l.below a = l.below b) :
    a = b := by
  have hnames : l.names ++ [a] = l.names ++ [b] := congrArg Location.names h
  simpa using hnames

theorem isFileName_of_no_slash {name : String} (hslash : '/' ∉ name.toList)
    (hlong : 2 < name.toList.length) : IsFileName name := by
  have hne : name.toList ≠ [] := List.ne_nil_of_length_pos (by omega)
  have isPart : Path.IsPart name := by
    refine ⟨hne, hslash, fun hup => ?_⟩
    rw [hup] at hlong
    exact Nat.lt_irrefl 2 hlong
  have hdot : name ≠ "." := by
    rintro rfl
    revert hlong
    decide
  refine ⟨?_, ?_, hne⟩
  · rw [Path.steps_part isPart, if_neg hdot]
  · rw [Path.endsInSlash, decide_eq_false_iff_not]
    intro hlast
    exact hslash (List.mem_of_getLast? hlast)

end SpatialSegment
