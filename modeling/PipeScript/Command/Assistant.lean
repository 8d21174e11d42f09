import PipeScript.Surroundings

/-!
# Text-generation commands

Each command makes a prompt of its argument and the value, and answers with the generated text.
-/

namespace PipeScript.Command

open Surroundings

/-- Answer a question, with the value as context. -/
def ask (question _second input : String) : Errand String :=
  complete (if input.isEmpty then question else question ++ "\n\nContext:\n" ++ input)

/-- Condense the value. -/
def summarize (_first _second input : String) : Errand String :=
  complete ("Summarize the following content concisely:\n\n" ++ input)

/-- Analyse the value, with a focus if one is given. -/
def analyze (focus _second input : String) : Errand String :=
  complete ("Analyze the following" ++ (if focus.isEmpty then "" else " focusing on " ++ focus)
    ++ ":\n\n" ++ input)

/-- Translate the value. -/
def translate (language _second input : String) : Errand String := do
  if language.isEmpty then throw (.requires "translate" "a target language")
  complete ("Translate the following text to " ++ language ++ ". Return only the translation.\n\n"
    ++ input)

end PipeScript.Command
