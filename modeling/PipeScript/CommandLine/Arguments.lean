import PipeScript.Text.Digit
import PipeScript.Text.Split

/-!
# Command line arguments

The arguments are options and operands. The first operand is the name of a task, and what follows it
belongs to the task, with options of its own. Options are written with a dash and a letter or with
two dashes and a word, of which any beginning that fits one option only will do. The letters of
options without a value may share a dash; a value follows its option as the next argument, or in the
same argument after an equals sign or, behind a letter, at once. After two dashes alone there are no
more options.

A text that starts with a dash is still an operand if it is a negative number or holds a blank, and
fits no option.
-/

namespace PipeScript.CommandLine

/-! ### Options -/

/-- What an option asks for. -/
inductive Choice
  | help
  | verbose
  | trace
  | expression
deriving DecidableEq, Repr

/-- An option: its letter, if it has one, and its word. -/
structure Switch where
  choice : Choice
  letter : Option Char
  word : String
deriving DecidableEq, Repr

namespace Switch

/-- Does the option have a value? -/
def takesValue (s : Switch) : Bool := s.choice == .expression

/-- Is the text the option, written with its letter or its word? -/
def isWritten (s : Switch) (text : List Char) : Bool :=
  text == '-' :: '-' :: s.word.toList || s.letter.any fun c => text == ['-', c]

/-- Asking for help. -/
def help : Switch := ⟨.help, some 'h', "help"⟩

/-- The options before a task. -/
def general : List Switch :=
  [help, ⟨.verbose, some 'v', "verbose"⟩, ⟨.trace, none, "trace"⟩]

/-- The options of tasks on a script. -/
def ofScript : List Switch := [help, ⟨.expression, some 'e', "expr"⟩]

end Switch

/-- Why arguments lead to no task: they ask for help, or they are not understood. -/
inductive Refusal
  | help
  | misuse
deriving DecidableEq, Repr

/-- What stands in the same argument behind an option. -/
inductive Attachment
  | nothing
  /-- A value after a word and an equals sign. -/
  | value (text : List Char)
  /-- A value, or more letters of options, behind a letter, perhaps after an equals sign. -/
  | tail (text : List Char)
deriving DecidableEq, Repr

/-- What an argument is. -/
inductive Token
  | operand (text : String)
  | option (switch : Switch) (attached : Attachment)
  /-- An option that is not known. -/
  | unknown
  /-- Two dashes alone. -/
  | divider
deriving DecidableEq, Repr

namespace Token

/-- Is the text a negative number in plain digits? A newline at its end does not count. -/
def isNegativeNumber (text : List Char) : Bool :=
  let body := if text.getLast? == some '\n' then text.dropLast else text
  match body with
  | '-' :: digits =>
    match digits.dropWhile Text.isDigit with
    | [] => !digits.isEmpty
    | '.' :: places => !places.isEmpty && places.all Text.isDigit
    | _ => false
  | _ => false

/-- The text before an equals sign, and what is attached there. -/
def splitValue (text : List Char) : List Char × Attachment :=
  match Text.splitOnce? ['='] text with
  | some (before, value) => (before, .value value)
  | none => (text, .nothing)

/-- The options that an argument may mean. -/
def candidates (switches : List Switch) : List Char → List Token
  | '-' :: '-' :: rest =>
    let (start, attached) := splitValue rest
    (switches.filter fun s => start.isPrefixOf s.word.toList).map fun s => option s attached
  | '-' :: c :: rest =>
    (switches.filter fun s => s.letter == some c).map fun s => option s (.tail rest)
  | _ => []

/-- What stands after an equals sign, behind the option that is written before it. -/
def attachedTo : List Char → Attachment → Attachment
  | '-' :: '-' :: _, attached => attached
  | _, .value text => .tail text
  | _, attached => attached

/-- The option that is written in full, with what stands after an equals sign if there is one. -/
def spelled? (switches : List Switch) (text : List Char) : Option Token :=
  let found (written : List Char) (attached : Attachment) : Option Token :=
    (switches.find? (·.isWritten written)).map fun s => option s attached
  let (before, attached) := splitValue text
  (found text .nothing).or (found before (attachedTo before attached))

/-- What one argument is among the given options. It must not fit several. -/
def ofArgument (switches : List Switch) (argument : String) : Except Refusal Token :=
  let text := argument.toList
  if text.head? ≠ some '-' || text.length = 1 then .ok (operand argument)
  else
    match spelled? switches text with
    | some t => .ok t
    | none =>
      match candidates switches text with
      | [t] => .ok t
      | _ :: _ :: _ => .error .misuse
      | [] =>
        if isNegativeNumber text || text.contains ' ' then .ok (operand argument) else .ok unknown

/-- What the arguments are. -/
def ofArguments (switches : List Switch) : List String → Except Refusal (List Token)
  | [] => .ok []
  | a :: rest =>
    if a = "--" then .ok (divider :: rest.map operand)
    else do
      let t ← ofArgument switches a
      let ts ← ofArguments switches rest
      pure (t :: ts)

end Token

/-! ### Groups of letters -/

/-- Options that one argument asks for: those without a value in order, and perhaps one with a
value, which is attached or yet to come. -/
structure Group where
  plain : List Choice := []
  valued : Option (Choice × Option (List Char)) := none
deriving DecidableEq, Repr

/-- The group of letters behind the letter of an option without a value. Every letter has to be an
option, up to one with a value, which takes the rest. -/
def Group.ofTail? (switches : List Switch) (first : Choice) : List Char → Option Group
  | [] => some { plain := [first] }
  | c :: rest =>
    match switches.find? fun t => t.letter == some c with
    | none => none
    | some t =>
      if t.takesValue then
        let attached := if rest.isEmpty then none else some rest
        some { plain := [first], valued := some (t.choice, attached) }
      else (ofTail? switches t.choice rest).map fun g => { g with plain := first :: g.plain }

/-- The group of an option and what is attached to it, unless that has no use. -/
def Group.ofOption? (switches : List Switch) (s : Switch) (attached : Attachment) : Option Group :=
  match s.takesValue, attached with
  | true, .nothing => some { valued := some (s.choice, none) }
  | true, .value text => some { valued := some (s.choice, some text) }
  | true, .tail text => some { valued := some (s.choice, some text) }
  | false, .nothing => some { plain := [s.choice] }
  | false, .value _ => none
  | false, .tail text => if text.isEmpty then none else ofTail? switches s.choice text

/-- Go on unless the group asks for help. -/
def Group.unlessHelp {α : Type} (g : Group) (next : Except Refusal α) : Except Refusal α :=
  if g.plain.contains .help then .error .help else next

/-! ### Tasks -/

/-- Where a script comes from: a text, which counts unless it is empty, or a file. -/
structure ScriptArgument where
  file : Option String := none
  expression : Option String := none
deriving DecidableEq, Repr

/-- What is to be done. -/
inductive Task
  | run (script : ScriptArgument)
  | check (script : ScriptArgument)
  | repl
  | cacheStats
  | cacheClear
deriving DecidableEq, Repr

/-- The arguments of a program. -/
structure Arguments where
  verbose : Bool := false
  trace : Bool := false
  task : Option Task := none
deriving DecidableEq, Repr

/-- The operand and the value that a task has got so far. -/
structure Slots where
  operand : Option String := none
  value : Option String := none
  /-- Whether there was something that the task has no use for. -/
  surplus : Bool := false

/-- The slots with a value that is attached to its option. Two dashes are no value. -/
def Slots.putAttached (slots : Slots) (value : List Char) : Slots :=
  { slots with value := if value = ['-', '-'] then none else some (String.ofList value) }

/-- How the arguments of a task are read: its options, and which operand it takes. -/
structure TaskForm where
  switches : List Switch
  accepts : Option (String → Bool)

namespace TaskForm

/-- Does the form have a place for an operand that is still free? -/
def isOpen (form : TaskForm) (slots : Slots) : Bool :=
  form.accepts.isSome && slots.operand.isNone

/-- The slots with an operand put in its place. -/
def putOperand (form : TaskForm) (slots : Slots) (text : String) : Except Refusal Slots :=
  if form.isOpen slots then
    if form.accepts.any (· text) then .ok { slots with operand := some text } else .error .misuse
  else .ok { slots with surplus := true }

/-- Read tokens into the slots. `fresh` tells whether the token before was an operand that was put
in its place: two dashes right behind it mean nothing. -/
def read (form : TaskForm) : List Token → Slots → Bool → Except Refusal Slots
  | [], slots, _ => .ok slots
  | .operand text :: rest, slots, _ => do
    let slots' ← form.putOperand slots text
    read form rest slots' (form.isOpen slots)
  | .unknown :: rest, slots, _ => read form rest { slots with surplus := true } false
  | .divider :: rest, slots, fresh =>
    if fresh || form.isOpen slots then read form rest slots false
    else read form rest { slots with surplus := true } false
  | .option s attached :: rest, slots, _ =>
    match Group.ofOption? form.switches s attached with
    | none => .error .misuse
    | some group =>
      match group.valued with
      | none => group.unlessHelp (read form rest slots false)
      | some (_, some value) =>
        group.unlessHelp (read form rest (slots.putAttached value) false)
      | some (_, none) =>
        match rest with
        | .operand text :: rest' =>
          group.unlessHelp (read form rest' { slots with value := some text } false)
        | _ => .error .misuse

/-- Read the arguments of a task. -/
def readAll (form : TaskForm) (arguments : List String) : Except Refusal Slots := do
  form.read (← Token.ofArguments form.switches arguments) {} false

end TaskForm

/-- The names of the tasks on the cache. -/
def cacheTasks : List String := ["stats", "clear"]

/-- The form of a task's arguments, and the task that they make. -/
def taskForm? (name : String) : Option (TaskForm × (Slots → Task)) :=
  let script := ⟨Switch.ofScript, some fun _ => true⟩
  match name with
  | "run" => some (script, fun s => .run ⟨s.operand, s.value⟩)
  | "check" => some (script, fun s => .check ⟨s.operand, s.value⟩)
  | "repl" => some (⟨[.help], none⟩, fun _ => .repl)
  | "cache" => some (⟨[.help], some cacheTasks.contains⟩,
      fun s => if s.operand = some "clear" then .cacheClear else .cacheStats)
  | _ => none

/-- The arguments with an option that has been asked for. -/
def Arguments.ask (a : Arguments) : Choice → Arguments
  | .verbose => { a with verbose := true }
  | .trace => { a with trace := true }
  | _ => a

/-- Read the arguments up to the task, each with the token that it is. -/
def Arguments.read : List (Token × String) → Arguments → Bool → Except Refusal Arguments
  | [], a, surplus => if surplus then .error .misuse else .ok a
  | (.operand name, _) :: rest, a, surplus =>
    match taskForm? name with
    | none => .error .misuse
    | some (form, task) => do
      let slots ← form.readAll (rest.map (·.2))
      if surplus || slots.surplus then .error .misuse else .ok { a with task := some (task slots) }
  | (.unknown, _) :: rest, a, _ => read rest a true
  | (.divider, _) :: _, _, _ => .error .misuse
  | (.option s attached, _) :: rest, a, surplus =>
    match Group.ofOption? Switch.general s attached with
    | none => .error .misuse
    | some group =>
      group.unlessHelp (read rest (group.plain.foldl ask a) surplus)

/-- Read the arguments of a program. -/
def Arguments.parse (arguments : List String) : Except Refusal Arguments := do
  let tokens ← Token.ofArguments Switch.general arguments
  Arguments.read (tokens.zip arguments) {} false

end PipeScript.CommandLine
