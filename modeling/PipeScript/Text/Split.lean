/-!
# Splitting, joining and searching

Splitting cuts a text at the leftmost, non-overlapping occurrences of a separator. Joining the
pieces with the separator gives the text back.
-/

namespace PipeScript.Text

/-- Put a character in front of the first piece. -/
def consFirst (c : Char) : List (List Char) → List (List Char)
  | [] => [[c]]
  | piece :: rest => (c :: piece) :: rest

/-- Cut the text at each occurrence of the separator, after passing over `skip` characters that
belong to an occurrence already found. -/
def splitSkipping (sep : List Char) : Nat → List Char → List (List Char)
  | _, [] => [[]]
  | skip + 1, _ :: rest => splitSkipping sep skip rest
  | 0, c :: rest =>
    if sep.isPrefixOf (c :: rest) then [] :: splitSkipping sep (sep.length - 1) rest
    else consFirst c (splitSkipping sep 0 rest)

/-- The pieces between the leftmost, non-overlapping occurrences of a non-empty separator. -/
def splitOn (sep s : List Char) : List (List Char) := splitSkipping sep 0 s

/-- The pieces with the separator between them. -/
def join (sep : List Char) (pieces : List (List Char)) : List Char := sep.intercalate pieces

/-- The lines of a text: the pieces between newlines. -/
def lines (s : List Char) : List (List Char) := splitOn ['\n'] s

/-- The pieces between the characters of a class. -/
def splitWhere (p : Char → Bool) : List Char → List (List Char)
  | [] => [[]]
  | c :: rest => if p c then [] :: splitWhere p rest else consFirst c (splitWhere p rest)

/-- What stands before the first occurrence of the separator, and what follows it. -/
def splitOnce? (sep : List Char) : List Char → Option (List Char × List Char)
  | [] => if sep.isEmpty then some ([], []) else none
  | c :: rest =>
    if sep.isPrefixOf (c :: rest) then some ([], (c :: rest).drop sep.length)
    else (splitOnce? sep rest).map fun (before, after) => (c :: before, after)

/-- Does the needle occur in the text? -/
def occursIn (needle : List Char) : List Char → Bool
  | [] => needle.isEmpty
  | c :: rest => needle.isPrefixOf (c :: rest) || occursIn needle rest

theorem splitSkipping_ne_nil (sep : List Char) (skip : Nat) (s : List Char) :
    splitSkipping sep skip s ≠ [] := by
  induction s generalizing skip with
  | nil => simp [splitSkipping]
  | cons c rest ih =>
    cases skip with
    | succ k => simpa [splitSkipping] using ih k
    | zero =>
      unfold splitSkipping
      split
      · simp
      · cases h : splitSkipping sep 0 rest <;> simp [consFirst]

theorem join_consFirst (sep : List Char) (c : Char) {pieces : List (List Char)} (h : pieces ≠ []) :
    join sep (consFirst c pieces) = c :: join sep pieces := by
  match pieces, h with
  | [p], _ => simp [consFirst, join, List.intercalate]
  | p :: q :: rest, _ => simp [consFirst, join, List.intercalate]

/-- Pieces joined again give the text back, but for what was passed over at its start. -/
theorem join_splitSkipping {sep : List Char} (hsep : sep ≠ []) (skip : Nat) (s : List Char) :
    join sep (splitSkipping sep skip s) = s.drop skip := by
  induction s generalizing skip with
  | nil => simp [splitSkipping, join, List.intercalate]
  | cons c rest ih =>
    cases skip with
    | succ k => simpa [splitSkipping] using ih k
    | zero =>
      unfold splitSkipping
      split
      · rename_i h
        obtain ⟨tail, ht⟩ := List.isPrefixOf_iff_prefix.1 h
        have hne := splitSkipping_ne_nil sep (sep.length - 1) rest
        have hj : join sep ([] :: splitSkipping sep (sep.length - 1) rest)
            = sep ++ join sep (splitSkipping sep (sep.length - 1) rest) := by
          cases hs : splitSkipping sep (sep.length - 1) rest with
          | nil => exact absurd hs hne
          | cons p ps => simp [join, List.intercalate]
        rw [hj, ih]
        obtain ⟨d, ds, rfl⟩ := List.exists_cons_of_ne_nil hsep
        simp only [List.cons_append, List.cons.injEq] at ht
        obtain ⟨rfl, rfl⟩ := ht
        simp
      · rw [join_consFirst sep c (splitSkipping_ne_nil sep 0 rest), ih]
        simp

/-- Splitting loses nothing but the separators. -/
theorem join_splitOn {sep : List Char} (hsep : sep ≠ []) (s : List Char) :
    join sep (splitOn sep s) = s := by
  simpa [splitOn] using join_splitSkipping hsep 0 s

end PipeScript.Text
