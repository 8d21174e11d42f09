import PipeScript.Syntax.Token
import PipeScript.Syntax.ParseError
import PipeScript.Text.Blank
import PipeScript.Text.Casing

/-!
# Reading a script

The tokens are taken one by one. A `Reading` holds what they have built so far: the blocks still
open, the finished statements of the innermost one, the finished stages of the chain at hand, and
how far its last stage has come. Each token either leads to the next reading or cannot stand there;
a text is a script exactly when all its tokens can be taken and the last reading is complete.
-/

namespace PipeScript.Syntax

/-- What opened a block. -/
inductive Opener
  | parallel
  | guard (condition : String)
  | forEach (strategy : String)
deriving DecidableEq, Repr

/-- The stage that a closed block is. -/
def Opener.close (o : Opener) (body : Block) : Stage :=
  match o with
  | parallel => .parallel body
  | guard condition => .guarded condition body
  | forEach strategy => .forEach strategy body

/-- How far the stage at hand has come. -/
inductive Progress
  /-- A stage has to start. -/
  | due
  /-- A command has its name and these arguments. -/
  | command (action : String) (arguments : List String)
  /-- A block has been closed. -/
  | closed
  /-- A condition has to follow. -/
  | conditionDue
  /-- A strategy or the block has to follow. -/
  | strategyDue
  /-- The block has to follow. -/
  | blockDue (opener : Opener)
deriving DecidableEq, Repr

/-- What a block left behind when another block was opened inside it. Both lists hold the last
element first. -/
structure Frame where
  opener : Opener
  statements : List Statement
  stages : List Stage

/-- What the tokens so far have built. Both lists of the innermost block hold the last element
first. -/
structure Reading where
  frames : List Frame
  statements : List Statement
  stages : List Stage
  progress : Progress

namespace Reading

/-- Nothing has been read. -/
def start : Reading := ⟨[], [], [], .due⟩

/-- The strategy of a loop that names none. -/
def defaultStrategy : String := "line"

/-- The command with the arguments given, missing ones empty. -/
def commandStage (action : String) (arguments : List String) : Stage :=
  .command action (arguments.getD 0 "") (arguments.getD 1 "")

/-- The chain at hand, if its last stage is complete: its stages, the last one first. -/
def chain? (r : Reading) : Option (List Stage) :=
  match r.progress with
  | .command action arguments => some (commandStage action arguments :: r.stages)
  | .closed => some r.stages
  | _ => none

/-- What may follow. -/
def expected (r : Reading) : List Terminal :=
  match r.progress with
  | .due => [.forEach, .word, .guard, .parallel]
  | .command _ arguments =>
    if arguments.length < 2 then
      [.forEach, .word, .guard, .parallel, .closeBrace, .quoted, .arrow]
    else [.forEach, .word, .guard, .parallel, .closeBrace, .arrow]
  | .closed => [.forEach, .word, .guard, .parallel, .closeBrace, .arrow]
  | .conditionDue => [.quoted]
  | .strategyDue => [.openBrace, .quoted]
  | .blockDue _ => [.openBrace]

/-- Open a block. -/
def openBlock (r : Reading) (o : Opener) : Reading :=
  ⟨⟨o, r.statements, r.stages⟩ :: r.frames, [], [], .due⟩

/-- How far a stage has come by its first token, if the token can start one. -/
def opening? : Token → Option Progress
  | .word spelling => some (.command (String.ofList (Text.lower spelling)) [])
  | .keyword .parallel _ => some (.blockDue .parallel)
  | .keyword .guard _ => some .conditionDue
  | .keyword .forEach _ => some .strategyDue
  | _ => none

/-- Take a token that ends the chain at hand: the start of another statement, or the end of the
block. -/
def takeAfter (r : Reading) (chain : List Stage) (t : Token) : Except (List Terminal) Reading :=
  match opening? t, t with
  | some progress, _ =>
    .ok { r with statements := chain.reverse :: r.statements, stages := [], progress }
  | none, .closeBrace =>
    match r.frames with
    | [] => .error [.endOfInput, .forEach, .word, .guard, .parallel]
    | f :: frames =>
      let body := (chain.reverse :: r.statements).reverse
      .ok ⟨frames, f.statements, f.opener.close body :: f.stages, .closed⟩
  | none, .arrow => .ok { r with stages := chain, progress := .due }
  | _, _ => .error r.expected

/-- Take one token; the error says what could stand there instead. -/
def take (r : Reading) (t : Token) : Except (List Terminal) Reading :=
  match r.progress, t with
  | .due, _ =>
    match opening? t with
    | some progress => .ok { r with progress }
    | none => .error r.expected
  | .command action arguments, .quoted spelling =>
    if arguments.length < 2 then
      .ok { r with progress := .command action (arguments ++ [unquote spelling]) }
    else .error r.expected
  | .command action arguments, _ => r.takeAfter (commandStage action arguments :: r.stages) t
  | .closed, _ => r.takeAfter r.stages t
  | .conditionDue, .quoted spelling =>
    .ok { r with progress := .blockDue (.guard (unquote spelling)) }
  | .strategyDue, .quoted spelling =>
    .ok { r with progress := .blockDue (.forEach (unquote spelling)) }
  | .strategyDue, .openBrace => .ok (r.openBlock (.forEach defaultStrategy))
  | .blockDue o, .openBrace => .ok (r.openBlock o)
  | _, _ => .error r.expected

/-- The program, if no block is open and the last chain is complete. -/
def program? (r : Reading) : Option Program :=
  match r.frames, r.chain? with
  | [], some chain => some ⟨(chain.reverse :: r.statements).reverse⟩
  | _, _ => none

end Reading

/-- Where a reading of tokens fails: at a token that cannot stand there, or at the end. The offset
is the one of the token, at the end the one of the last token. -/
inductive Break
  | atToken (lexeme : Lexeme) (expected : List Terminal)
  | atEnd (last : Option Lexeme) (reading : Reading)

/-- Take the tokens in turn. -/
def takeAll (r : Reading) (last : Option Lexeme) : List Lexeme → Break
  | [] => .atEnd last r
  | l :: rest =>
    match r.take l.token with
    | .ok r' => takeAll r' (some l) rest
    | .error expected => .atToken l expected

/-- The program that a text is. -/
def parse (s : List Char) : Except ParseError Program :=
  let place (offset : Nat) : Option Text.Position := some (.ofOffset s offset)
  if Text.isBlankText s then .error ⟨.empty, none⟩
  else
    let lexed := lex s
    match takeAll .start none lexed.lexemes, lexed.stuck with
    | .atToken l expected, _ =>
      .error ⟨.token (String.ofList l.token.spelling) expected, place l.offset⟩
    | .atEnd _ _, some (c, offset) => .error ⟨.character c, place offset⟩
    | .atEnd last r, none =>
      match r.program? with
      | some p => .ok p
      | none => .error ⟨.cutShort, place ((last.map (·.offset)).getD 0)⟩

end PipeScript.Syntax

namespace PipeScript

/-- The program that a script's text is. -/
def Program.parse (source : String) : Except ParseError Program := Syntax.parse source.toList

end PipeScript
