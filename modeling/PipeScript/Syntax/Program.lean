/-!
# Programs

A script is a list of statements. A statement is a chain of stages, each fed with the value of the
one before; a stage is a command, or a block that runs other statements: on the same value in
parallel, on the value if a condition holds, or on each item of the value.
-/

namespace PipeScript

/-- One stage of a chain. -/
inductive Stage
  | command (action argument1 argument2 : String)
  | parallel (branches : List (List Stage))
  | guarded (condition : String) (body : List (List Stage))
  | forEach (strategy : String) (body : List (List Stage))
deriving Inhabited

/-- A chain of stages. -/
abbrev Statement := List Stage

/-- The statements of a block. -/
abbrev Block := List Statement

/-- A whole script. -/
structure Program where
  statements : Block

/-- The number of statements. -/
def Program.size (p : Program) : Nat := p.statements.length

/-- A keyword that opens a block. -/
inductive Keyword
  | parallel
  | guard
  | forEach
deriving DecidableEq, Repr

/-- How a keyword is spelt. -/
def Keyword.spelling : Keyword → String
  | .parallel => "parallel"
  | .guard => "if"
  | .forEach => "foreach"

/-- A command with its two arguments. -/
structure CommandUse where
  action : String
  argument1 : String
  argument2 : String
deriving DecidableEq, Repr

namespace Stage

mutual

/-- The commands of a stage and of the blocks in it, in the order of the script. -/
def commands : Stage → List CommandUse
  | .command action a b => [⟨action, a, b⟩]
  | .parallel branches => blockCommands branches
  | .guarded _ body => blockCommands body
  | .forEach _ body => blockCommands body

/-- The commands of a chain. -/
def chainCommands : List Stage → List CommandUse
  | [] => []
  | s :: rest => commands s ++ chainCommands rest

/-- The commands of a block. -/
def blockCommands : List (List Stage) → List CommandUse
  | [] => []
  | chain :: rest => chainCommands chain ++ blockCommands rest

end

/-- May the text be a command's name: a lower-case letter or underscore, then lower-case letters,
digits and underscores, and no keyword? -/
def IsAction (action : String) : Prop :=
  (∃ c cs, action.toList = c :: cs ∧ (c = '_' ∨ c.isLower) ∧
    ∀ d ∈ cs, d = '_' ∨ d.isLower ∨ d.isDigit) ∧
  ∀ k : Keyword, action ≠ k.spelling

mutual

/-- Is the stage well formed: are the lists inside it non-empty and the actions names? -/
def WellFormed : Stage → Prop
  | .command action _ _ => IsAction action
  | .parallel branches => branches ≠ [] ∧ BlockWellFormed branches
  | .guarded _ body => body ≠ [] ∧ BlockWellFormed body
  | .forEach _ body => body ≠ [] ∧ BlockWellFormed body

/-- Is every stage of a chain well formed? -/
def ChainWellFormed : List Stage → Prop
  | [] => True
  | s :: rest => WellFormed s ∧ ChainWellFormed rest

/-- Is every statement of a block a non-empty chain of well-formed stages? -/
def BlockWellFormed : List (List Stage) → Prop
  | [] => True
  | chain :: rest => (chain ≠ [] ∧ ChainWellFormed chain) ∧ BlockWellFormed rest

end

end Stage

/-- The commands of a program, in the order of the script. -/
def Program.commands (p : Program) : List CommandUse := Stage.blockCommands p.statements

/-- Is the program well formed: not empty, and every stage well formed? -/
def Program.WellFormed (p : Program) : Prop :=
  p.statements ≠ [] ∧ Stage.BlockWellFormed p.statements

end PipeScript
