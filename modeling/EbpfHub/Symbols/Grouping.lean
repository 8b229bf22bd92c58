import EbpfHub.Foundations.Run
import EbpfHub.Symbols.MapsFile

/-!
# The objects that a maps file is loaded as

The objects group the mappings of the file by name: one for each name, with the
ranges of its mappings in order.
-/

namespace EbpfHub
namespace Symbols

open Foundations

theorem strcmp_eq_zero_iff {first second : Name} : strcmp first second = 0 ↔ first = second := by
  constructor
  · intro same
    induction first generalizing second with
    | nil =>
        cases second with
        | nil => rfl
        | cons c second => exact absurd same (by decide : ¬(-1 : Int) = 0)
    | cons c first inductionHypothesis =>
        cases second with
        | nil => exact absurd same (by decide : ¬(1 : Int) = 0)
        | cons d second =>
            unfold strcmp at same
            split at same
            · next equal => rw [equal, inductionHypothesis same]
            · split at same
              · exact absurd same (by decide)
              · exact absurd same (by decide)
  · rintro rfl
    exact strcmp_self first

/-! ## The objects of a file -/

/-- The kind of an object, as `syms__add_dso` finds it. -/
def objectType (system : System) (name : Name) : ElfType :=
  if getElfType system name = some etExec then .exec
  else if getElfType system name = some etDyn then .dyn
  else if isVdso name then .vdso
  else .unknown

/-- The address and the file offset of the text section of a shared object,
zero for the others. -/
def textScn (system : System) (name : Name) : U64 × U64 :=
  if objectType system name = .dyn then (getElfTextScnInfo system name).getD (0, 0)
  else (0, 0)

/-- The mappings of a name. -/
def mappingsOf (lines : List MapsLine) (name : Name) : List MapsLine :=
  lines.filter fun line => line.mapped && line.name = name

/-- The object of a name: it has the ranges of its mappings, in order. -/
def objectOf (system : System) (lines : List MapsLine) (name : Name) : Dso where
  name := name
  named := !system.strdupFails name
  hasBtf := !system.btfFails name
  ranges := (mappingsOf lines name).map fun line => line.map.range
  shAddr := (textScn system name).1
  shOffset := (textScn system name).2
  type := objectType system name
  syms := none
  released := false

/-- The loaded objects group the mappings of the lines by name: there is one
for each name that is mapped, and no other. -/
structure Groups (system : System) (lines : List MapsLine) (syms : Syms) : Prop where
  nodup : (syms.map Dso.name).Nodup
  names : ∀ name, name ∈ syms.map Dso.name ↔
    ∃ line ∈ lines, line.mapped = true ∧ line.name = name
  objects : ∀ dso ∈ syms, dso = objectOf system lines dso.name

/-- A range is added behind the others, and the object gets its kind. -/
theorem addRange_eq
    {system : System}
    {map : Map}
    {name : Name}
    {dso dso' : Dso}
    (text : (dso.shAddr, dso.shOffset) = textScn system name ∨
      (dso.shAddr, dso.shOffset) = (0, 0))
    (added : addRange system map name dso = .ok dso') :
    dso' = { dso with
      ranges := dso.ranges ++ [map.range]
      type := objectType system name
      shAddr := (textScn system name).1
      shOffset := (textScn system name).2 } := by
  unfold addRange isPerfMap at added
  split at added
  · cases added
  by_cases exec : getElfType system name = some etExec
  · have type : objectType system name = .exec := if_pos exec
    have zero : textScn system name = (0, 0) := if_neg (by rw [type]; decide)
    rw [zero, or_self] at text
    simp only [if_pos exec] at added
    obtain rfl := Except.ok.inj added
    obtain ⟨first, second⟩ := Prod.mk.inj text
    rw [type, zero, first, second]
  · by_cases dyn : getElfType system name = some etDyn
    · have type : objectType system name = .dyn := by
        rw [objectType, if_neg exec, if_pos dyn]
      simp only [if_neg exec, if_pos dyn] at added
      cases info : getElfTextScnInfo system name with
      | none =>
          rw [info] at added
          cases added
      | some found =>
          have scn : textScn system name = found := by
            rw [textScn, if_pos type, info]
            rfl
          rw [info] at added
          obtain rfl := Except.ok.inj added
          rw [type, scn]
    · have type : objectType system name = if isVdso name then .vdso else .unknown := by
        rw [objectType, if_neg exec, if_neg dyn]
      have zero : textScn system name = (0, 0) := by
        refine if_neg ?_
        rw [type]
        split <;> decide
      rw [zero, or_self] at text
      obtain ⟨first, second⟩ := Prod.mk.inj text
      simp only [if_neg exec, if_neg dyn, Bool.false_eq_true, if_false] at added
      rw [first, second] at added
      rw [type, zero]
      split at added
      · next vdso =>
        obtain rfl := Except.ok.inj added
        rw [if_pos vdso]
      · next unknown =>
        obtain rfl := Except.ok.inj added
        rw [if_neg unknown]

/-- The dso of the name, or a new one at the end, gets the range. -/
theorem of_addDso_eq_ok
    {system : System}
    {map : Map}
    {name : Name}
    {syms syms' : Syms}
    (added : addDso system map name syms = .ok syms') :
    (∃ before dso dso' after, syms = before ++ dso :: after ∧ dso.name = name ∧
        addRange system map name dso = .ok dso' ∧ syms' = before ++ dso' :: after) ∨
      (∀ dso ∈ syms, dso.name ≠ name) ∧
        ∃ dso', addRange system map name (Dso.new system name) = .ok dso' ∧
          syms' = syms ++ [dso'] := by
  induction syms generalizing syms' with
  | nil =>
      obtain ⟨dso', range, rfl⟩ := exists_of_map_eq_ok added
      exact .inr ⟨fun _ member => (by cases member), dso', range, rfl⟩
  | cons dso rest inductionHypothesis =>
      unfold addDso at added
      split at added
      · cases added
      split at added
      · next same =>
        obtain ⟨dso', range, rfl⟩ := exists_of_map_eq_ok added
        exact .inl ⟨[], dso, dso', rest, rfl, strcmp_eq_zero_iff.mp same, range, rfl⟩
      · next different =>
        obtain ⟨rest', tail, rfl⟩ := exists_of_map_eq_ok added
        rcases inductionHypothesis tail with
          ⟨before, found, found', after, rfl, named, range, rfl⟩ | ⟨others, found', range, rfl⟩
        · exact .inl ⟨dso :: before, found, found', after, rfl, named, range, rfl⟩
        · refine .inr ⟨?_, found', range, rfl⟩
          intro other member
          rcases List.mem_cons.mp member with rfl | later
          · exact fun same => different (strcmp_eq_zero_iff.mpr same)
          · exact others other later

theorem mappingsOf_append_self
    (lines : List MapsLine)
    {line : MapsLine}
    (mapped : line.mapped = true) :
    mappingsOf (lines ++ [line]) line.name = mappingsOf lines line.name ++ [line] := by
  simp [mappingsOf, List.filter_append, mapped]

theorem mappingsOf_append_of_ne
    (lines : List MapsLine)
    {line : MapsLine}
    {name : Name}
    (different : ¬(line.mapped = true ∧ line.name = name)) :
    mappingsOf (lines ++ [line]) name = mappingsOf lines name := by
  have none : mappingsOf [line] name = [] := by
    simpa [mappingsOf] using different
  rw [mappingsOf, List.filter_append]
  exact (congrArg (_ ++ ·) none).trans (List.append_nil _)

theorem objectOf_append_of_ne
    (system : System)
    (lines : List MapsLine)
    {line : MapsLine}
    {name : Name}
    (different : ¬(line.mapped = true ∧ line.name = name)) :
    objectOf system (lines ++ [line]) name = objectOf system lines name := by
  unfold objectOf
  rw [mappingsOf_append_of_ne lines different]

/-- The object of the name of a mapping, after its range was added. -/
theorem objectOf_append_self
    {system : System}
    {lines : List MapsLine}
    {line : MapsLine}
    {dso dso' : Dso}
    (mapped : line.mapped = true)
    (start : dso = objectOf system lines line.name ∨
      dso = Dso.new system line.name ∧ mappingsOf lines line.name = [])
    (added : addRange system line.map line.name dso = .ok dso') :
    dso' = objectOf system (lines ++ [line]) line.name := by
  unfold objectOf
  rw [mappingsOf_append_self lines mapped, List.map_append]
  rcases start with rfl | ⟨rfl, none⟩
  · rw [addRange_eq (.inl rfl) added]
    rfl
  · rw [addRange_eq (.inr rfl) added, none]
    rfl

/-- The names that are mapped after one more line. -/
theorem exists_mapped_append_iff
    (lines : List MapsLine)
    (line : MapsLine)
    (name : Name) :
    (∃ other ∈ lines ++ [line], other.mapped = true ∧ other.name = name) ↔
      (∃ other ∈ lines, other.mapped = true ∧ other.name = name) ∨
        line.mapped = true ∧ line.name = name := by
  simp only [List.mem_append, List.mem_singleton, or_and_right, exists_or, exists_eq_left]

namespace Groups

variable {system : System} {lines : List MapsLine} {syms : Syms}

theorem start (system : System) : Groups system [] [] where
  nodup := List.nodup_nil
  names := fun name => ⟨fun member => (by cases member), fun ⟨_, member, _⟩ => (by cases member)⟩
  objects := fun _ member => (by cases member)

/-- A line that is not mapped changes nothing. -/
theorem skip
    (groups : Groups system lines syms)
    {line : MapsLine}
    (unmapped : line.mapped = false) :
    Groups system (lines ++ [line]) syms := by
  have different : ∀ name, ¬(line.mapped = true ∧ line.name = name) :=
    fun _ => not_and_of_not_left _ (ne_true_of_eq_false unmapped)
  refine ⟨groups.nodup, ?_, ?_⟩
  · intro name
    rw [groups.names name, exists_mapped_append_iff, or_iff_left (different name)]
  · intro dso member
    rw [objectOf_append_of_ne system lines (different _)]
    exact groups.objects dso member

/-- A name that no dso has is not mapped by any line. -/
theorem mappingsOf_eq_nil
    (groups : Groups system lines syms)
    {name : Name}
    (absent : ∀ dso ∈ syms, dso.name ≠ name) :
    mappingsOf lines name = [] := by
  refine List.filter_eq_nil_iff.mpr fun line member isIt => ?_
  rw [Bool.and_eq_true, decide_eq_true_iff] at isIt
  obtain ⟨dso, inSyms, named⟩ := List.mem_map.mp
    ((groups.names name).mpr ⟨line, member, isIt⟩)
  exact absent dso inSyms named

/-- An object of another name than the mapping that is added stays as it is. -/
theorem eq_objectOf_append
    (groups : Groups system lines syms)
    {line : MapsLine}
    {dso : Dso}
    (member : dso ∈ syms)
    (different : dso.name ≠ line.name) :
    dso = objectOf system (lines ++ [line]) dso.name := by
  rw [objectOf_append_of_ne system lines fun both => different both.2.symm]
  exact groups.objects dso member

/-- A mapping is added to the object of its name. -/
theorem extend
    {before after : Syms}
    {dso dso' : Dso}
    (groups : Groups system lines (before ++ dso :: after))
    {line : MapsLine}
    (mapped : line.mapped = true)
    (named : dso.name = line.name)
    (range : addRange system line.map line.name dso = .ok dso') :
    Groups system (lines ++ [line]) (before ++ dso' :: after) := by
  have own := groups.objects dso (by simp)
  rw [named] at own
  have updated := objectOf_append_self mapped (.inl own) range
  have name' : dso'.name = dso.name := by
    rw [updated, named]
    rfl
  have sameNames : (before ++ dso' :: after).map Dso.name =
      (before ++ dso :: after).map Dso.name := by
    simp [name']
  refine ⟨?_, ?_, ?_⟩
  · rw [sameNames]
    exact groups.nodup
  · intro name
    rw [sameNames, exists_mapped_append_iff, ← groups.names name]
    refine (or_iff_left_of_imp ?_).symm
    rintro ⟨-, rfl⟩
    exact List.mem_map.mpr ⟨dso, by simp, named⟩
  · have apart := groups.nodup
    rw [List.map_append, List.map_cons, List.nodup_middle, List.nodup_cons,
      List.mem_append] at apart
    intro other member
    rcases List.mem_append.mp member with inFront | inBack
    · refine groups.eq_objectOf_append (by simp [inFront]) fun same => apart.1 (.inl ?_)
      exact List.mem_map.mpr ⟨other, inFront, same.trans named.symm⟩
    · rcases List.mem_cons.mp inBack with rfl | later
      · rw [name', named]
        exact updated
      · refine groups.eq_objectOf_append (by simp [later]) fun same => apart.1 (.inr ?_)
        exact List.mem_map.mpr ⟨other, later, same.trans named.symm⟩

/-- The first mapping of a name makes a new object. -/
theorem append
    (groups : Groups system lines syms)
    {line : MapsLine}
    {dso' : Dso}
    (mapped : line.mapped = true)
    (absent : ∀ dso ∈ syms, dso.name ≠ line.name)
    (range : addRange system line.map line.name (Dso.new system line.name) = .ok dso') :
    Groups system (lines ++ [line]) (syms ++ [dso']) := by
  have updated := objectOf_append_self mapped
    (.inr ⟨rfl, groups.mappingsOf_eq_nil absent⟩) range
  have name' : dso'.name = line.name := by
    rw [updated]
    rfl
  refine ⟨?_, ?_, ?_⟩
  · rw [List.map_append, List.map_singleton, List.nodup_append]
    refine ⟨groups.nodup, List.nodup_singleton _, ?_⟩
    intro name member other last
    obtain ⟨dso, inSyms, rfl⟩ := List.mem_map.mp member
    obtain rfl := List.mem_singleton.mp last
    rw [name']
    exact absent dso inSyms
  · intro name
    rw [List.map_append, List.map_singleton, List.mem_append, List.mem_singleton, name',
      exists_mapped_append_iff, groups.names name, eq_comm (a := name), and_iff_right mapped]
  · intro other member
    rcases List.mem_append.mp member with before | last
    · exact groups.eq_objectOf_append before (absent other before)
    · obtain rfl := List.mem_singleton.mp last
      rw [name']
      exact updated

/-- A line that is mapped adds a range to the object of its name. -/
theorem add
    (groups : Groups system lines syms)
    {line : MapsLine}
    {syms' : Syms}
    (mapped : line.mapped = true)
    (added : addDso system line.map line.name syms = .ok syms') :
    Groups system (lines ++ [line]) syms' := by
  rcases of_addDso_eq_ok added with
    ⟨before, dso, dso', after, rfl, named, range, rfl⟩ | ⟨absent, dso', range, rfl⟩
  · exact groups.extend mapped named range
  · exact groups.append mapped absent range

/-- Adding lines one by one goes on grouping. -/
theorem foldlM
    (groups : Groups system lines syms)
    {more : List MapsLine}
    {final : Syms}
    (loaded : more.foldlM (addLine system) syms = .ok final) :
    Groups system (lines ++ more) final := by
  induction more generalizing lines syms with
  | nil =>
      obtain rfl := Except.ok.inj loaded
      rwa [List.append_nil]
  | cons line more inductionHypothesis =>
      rw [List.foldlM_cons] at loaded
      obtain ⟨next, added, rest⟩ := exists_of_bind_eq_ok loaded
      rw [← List.singleton_append, ← List.append_assoc]
      refine inductionHypothesis ?_ rest
      unfold addLine at added
      split at added
      · cases added
      cases mapped : line.mapped with
      | true =>
          rw [if_pos mapped] at added
          exact groups.add mapped added
      | false =>
          rw [if_neg (ne_true_of_eq_false mapped)] at added
          obtain rfl := Except.ok.inj added
          exact groups.skip mapped

end Groups

/-- A load of a well-formed file groups its mappings by name. -/
theorem groups_of_loadFile
    {system : System}
    {content : List Char}
    {lines : List MapsLine}
    {syms : Syms}
    (file : IsMapsFile content lines)
    (loaded : loadFile system (some content) = .ok syms) :
    Groups system lines syms := by
  rw [loadFile_of_isMapsFile file] at loaded
  split at loaded
  · cases loaded
  exact (Groups.start system).foldlM loaded

end Symbols
end EbpfHub
