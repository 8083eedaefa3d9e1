import Mathlib.Data.List.Nodup
import Mathlib.Data.List.Perm.Subperm
import Wireframe.Instruction.Request

namespace Wireframe.Instruction

variable {limits : Limits} {text : List Char}

theorem inputCount_le (limits : Limits) (text : List Char) :
    inputCount limits text ≤ limits.maxModalInputs := by
  rw [inputCount]
  split
  · exact Nat.min_le_right ..
  · split
    · exact Nat.min_le_right ..
    · exact Nat.zero_le _

-- What the text names is filled up to the number asked for.
theorem length_modalInputs (limits : Limits) (text : List Char) :
    (modalInputs limits text).length = inputCount limits text := by
  rw [modalInputs, List.length_append, List.length_map, List.length_range', List.length_take]
  omega

-- A dialog has no more inputs than there may be.
def Addition.Limited (limits : Limits) : Addition → Prop
  | .modal _ inputs => inputs.length ≤ limits.maxModalInputs
  | .chart => True
  | .table => True

theorem limited_additionOf (limits : Limits) (text clause : List Char) (kind : ComponentKind) :
    (additionOf limits text clause kind).Limited limits := by
  cases kind with
  | modal =>
    rw [additionOf, Addition.Limited, length_modalInputs]
    exact inputCount_le limits text
  | _ => trivial

namespace Request

structure Proper (limits : Limits) (request : Request) : Prop where
  distinct : (request.additions.map Addition.kind).Nodup
  limited : ∀ addition ∈ request.additions, addition.Limited limits

theorem Proper.empty : Request.Proper limits {} := ⟨List.nodup_nil, nofun⟩

theorem Proper.remove {request : Request} (h : request.Proper limits) (kind : ComponentKind) :
    (request.remove kind).Proper limits := by
  rw [Request.remove]
  split
  · exact h
  · exact ⟨h.distinct, h.limited⟩

theorem Proper.add {request : Request} (h : request.Proper limits) {addition : Addition}
    (hlimited : addition.Limited limits) : (request.add addition).Proper limits := by
  rw [Request.add]
  split
  · exact h
  · next hany =>
    have hnew : addition.kind ∉ request.additions.map Addition.kind := by
      intro hmem
      obtain ⟨other, hother, hkind⟩ := List.mem_map.mp hmem
      exact hany (List.any_eq_true.mpr ⟨other, hother, beq_iff_eq.mpr hkind⟩)
    refine ⟨?_, List.forall_mem_append.mpr ⟨h.limited, List.forall_mem_singleton.mpr hlimited⟩⟩
    rw [List.map_append, List.map_singleton, ← List.concat_eq_append]
    exact h.distinct.concat hnew

theorem Proper.extend {request : Request} (h : request.Proper limits) (verb : Verb)
    (clause : List Char) : (request.extend limits text verb clause).Proper limits := by
  cases verb with
  | remove =>
    rw [Request.extend]
    split
    · exact h.remove _
    · exact h
  | add =>
    rw [Request.extend]
    split
    · exact h.add (limited_additionOf ..)
    · exact h

theorem Proper.readClauses {request : Request} (h : request.Proper limits) (verb : Option Verb)
    (clauses : List (List Char)) :
    (readClauses limits text request verb clauses).Proper limits := by
  induction clauses generalizing request verb with
  | nil => exact h
  | cons clause rest ih =>
    rw [Instruction.readClauses]
    split
    · exact ih (h.extend _ _) _
    · exact ih h _

theorem Proper.settle {request : Request} (h : request.Proper limits) :
    request.settle.Proper limits where
  distinct := h.distinct.sublist (List.filter_sublist.map Addition.kind)
  limited := fun addition haddition => h.limited addition (List.mem_of_mem_filter haddition)

-- There are nine kinds, so there are nine additions at most.
theorem Proper.length_additions_le {request : Request} (h : request.Proper limits) :
    request.additions.length ≤ 9 := by
  have hall : ∀ kind ∈ request.additions.map Addition.kind, kind ∈ ComponentKind.all := by
    intro kind _
    cases kind <;> decide
  have hle := (List.subperm_of_subset h.distinct hall).length_le
  rwa [List.length_map] at hle

end Request

theorem proper_request (limits : Limits) (text : List Char) : (request limits text).Proper limits :=
  (Request.Proper.empty.readClauses none _).settle

end Wireframe.Instruction
