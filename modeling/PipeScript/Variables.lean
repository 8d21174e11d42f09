import PipeScript.Json

/-!
# Variables

The variables of a run, in the order in which they were first set. Setting a variable again changes
its value and keeps its place.
-/

namespace PipeScript

/-- Variables and their values. -/
abbrev Variables := List (String × Json)

namespace Variables

/-- The value of a variable. -/
def get? (vars : Variables) (name : String) : Option Json :=
  (vars.find? fun v => v.1 == name).map (·.2)

/-- The variables after one of them is set. -/
def set (name : String) (value : Json) : Variables → Variables
  | [] => [(name, value)]
  | v :: rest => if v.1 == name then (name, value) :: rest else v :: set name value rest

theorem get?_set (vars : Variables) (name other : String) (value : Json) :
    get? (set name value vars) other = if other = name then some value else get? vars other := by
  induction vars with
  | nil =>
    by_cases h : other = name
    · simp [set, get?, h]
    · simp [set, get?, h, Ne.symm h]
  | cons v rest ih =>
    by_cases hv : v.1 = name
    · by_cases h : other = name
      · simp [set, get?, hv, h]
      · simp [set, get?, hv, h, Ne.symm h]
    · by_cases h : other = name
      · have hn : ¬ v.1 = name := hv
        simp only [get?] at ih
        simp [set, get?, hv, h] at ih ⊢
        exact ih
      · simp only [get?] at ih
        by_cases ho : v.1 = other
        · simp [set, get?, ho, h]
        · simp [set, get?, hv, ho] at ih ⊢
          exact ih

end Variables

end PipeScript
