import PipeScript.Proofs.Numeral
import PipeScript.Proofs.Syntax.Rejection

/-!
# Messages on one line

The message of a syntax error names the text at fault, and this may be anything: a quoted text goes over
several lines, and a character that starts no token may be one that breaks a line. An editor that reads the
messages line by line expects each of them on one.

They are, because the text at fault is quoted. `Text.IsLine` says of a text that all its characters are shown
as themselves; none of them breaks a line then (`Text.IsLine.newline_not_mem`).

Main results: whatever text is quoted, the quoted text is on one line (`Text.isLine_quote`), and so is the
message of each error that a text is rejected with (`Syntax.isLine_of_parse`). It would not be so of a script
that cannot be read, since the path of a script is shown as it is.
-/

namespace PipeScript

namespace Text

/-- Are all characters of the text shown as themselves? -/
def IsLine (s : String) : Prop := ∀ c ∈ s.toList, isPrintable c = true

instance : DecidablePred IsLine := fun s =>
  decidable_of_iff (s.toList.all isPrintable = true) List.all_eq_true

variable {s t : String} {c d mark : Char} {width n : Nat}

theorem IsLine.newline_not_mem (h : IsLine s) : '\n' ∉ s.toList := by
  intro hmem
  exact absurd (h '\n' hmem) (by decide)

theorem IsLine.append (hs : IsLine s) (ht : IsLine t) : IsLine (s ++ t) := by
  intro c hc
  rw [String.toList_append, List.mem_append] at hc
  rcases hc with hc | hc
  · exact hs c hc
  · exact ht c hc

theorem IsLine.intercalate {parts : List String} (hs : IsLine s) (h : ∀ t ∈ parts, IsLine t) :
    IsLine (s.intercalate parts) := by
  induction parts with
  | nil => simp [IsLine]
  | cons t parts ih =>
    obtain ⟨ht, hparts⟩ := List.forall_mem_cons.mp h
    cases parts with
    | nil => rwa [String.intercalate_singleton]
    | cons u parts =>
      rw [String.intercalate_cons_cons]
      exact (ht.append hs).append (ih hparts)

/-! ### Quoted texts -/

theorem isPrintable_of_mem_hexDigits (h : d ∈ hexDigits width n) : isPrintable d = true := by
  have hdigit : ∀ k < 16, isPrintable (Nat.digitChar k) = true := by decide
  induction width generalizing n with
  | zero => cases h
  | succ width ih =>
    rw [hexDigits, List.mem_append, List.mem_singleton] at h
    rcases h with h | rfl
    · exact ih h
    · exact hdigit _ (Nat.mod_lt n (by decide))

theorem isPrintable_of_mem_quotedChar (hmark : isPrintable mark = true) (h : d ∈ quotedChar mark c) :
    isPrintable d = true := by
  have hescape (letter : Char) (digits : List Char) (hletter : isPrintable letter = true)
      (hdigits : ∀ d ∈ digits, isPrintable d = true) :
      ∀ d ∈ '\\' :: letter :: digits, isPrintable d = true := by
    have hbackslash : isPrintable '\\' = true := by decide
    simpa [hbackslash, hletter] using hdigits
  simp only [quotedChar] at h
  split_ifs at h with hself hnewline hreturn htab hprint hbyte hshort
  · refine hescape c [] ?_ (by simp) d h
    rw [Bool.or_eq_true, decide_eq_true_eq, decide_eq_true_eq] at hself
    rcases hself with rfl | rfl
    · exact hmark
    · decide
  · exact hescape 'n' [] (by decide) (by simp) d h
  · exact hescape 'r' [] (by decide) (by simp) d h
  · exact hescape 't' [] (by decide) (by simp) d h
  · rw [List.mem_singleton.mp h, hprint]
  · exact hescape 'x' _ (by decide) (fun _ => isPrintable_of_mem_hexDigits) d h
  · exact hescape 'u' _ (by decide) (fun _ => isPrintable_of_mem_hexDigits) d h
  · exact hescape 'U' _ (by decide) (fun _ => isPrintable_of_mem_hexDigits) d h

/-- **A quoted text** is on one line, whatever the text is. -/
theorem isLine_quote (s : String) : IsLine (quote s) := by
  have hmark : isPrintable (markFor s.toList) = true := by
    unfold markFor
    split <;> decide
  intro d hd
  rw [quote, String.toList_ofList, quoted, List.cons_append, List.mem_cons, List.mem_append,
    List.mem_singleton] at hd
  rcases hd with rfl | hbody | rfl
  · exact hmark
  · obtain ⟨c, -, hc⟩ := List.mem_flatMap.mp hbody
    exact isPrintable_of_mem_quotedChar hmark hc
  · exact hmark

theorem isLine_toString_nat (n : Nat) : IsLine (toString n) := by
  intro c hc
  rcases (Numeral.isPrinted_toString_nat n).isNumeralChar c hc with hdigit | rfl | rfl
  · obtain ⟨hlow, hhigh⟩ := Numeral.isAsciiDigit_iff.mp hdigit
    rw [isPrintable, if_pos (by omega), decide_eq_true_eq]
    omega
  · decide
  · decide

end Text

namespace Syntax

open Text

theorem isLine_name (t : Terminal) : IsLine t.name := by
  cases t <;> decide

/-- Can a text be rejected for the fault? -/
def Fault.IsOfText : Fault → Prop
  | .unreadable .. => False
  | _ => True

/-- **The fault of a text** is named on one line. -/
theorem Fault.isLine_message {f : Fault} (h : f.IsOfText) : IsLine f.message := by
  cases f with
  | empty => decide
  | cutShort => decide
  | token spelling expected =>
    refine (IsLine.append (by decide) (isLine_quote spelling)).append ?_
    split
    · decide
    · refine IsLine.append (by decide) (IsLine.intercalate (by decide) ?_)
      intro t ht
      obtain ⟨terminal, -, rfl⟩ := List.mem_map.mp ht
      exact isLine_name terminal
  | character c =>
    refine (IsLine.append (by decide) (isLine_quote _)).append ?_
    split <;> decide
  | unreadable path reason => exact h.elim

theorem isOfText_of_parse {s : List Char} {e : ParseError} (h : parse s = .error e) : e.fault.IsOfText := by
  cases hb : isBlankText s with
  | true =>
    rw [parse, if_pos hb] at h
    obtain rfl : ⟨.empty, none⟩ = e := Except.error.inj h
    trivial
  | false =>
    obtain ⟨u, hrejected, -⟩ := rejected_of_parse hb h
    generalize e.fault = f at hrejected
    cases hrejected <;> trivial

/-- **The error of a text that is no script** is told on one line. -/
theorem isLine_of_parse {s : List Char} {e : ParseError} (h : parse s = .error e) : IsLine e.message := by
  have hfault := Fault.isLine_message (isOfText_of_parse h)
  unfold ParseError.message
  cases e.position with
  | none => exact hfault
  | some p =>
    have hline : IsLine ("line " ++ toString p.line) := IsLine.append (by decide) (isLine_toString_nat p.line)
    have hcolumn : IsLine (", col " ++ toString p.column) :=
      IsLine.append (by decide) (isLine_toString_nat p.column)
    have hplace := (hline.append hcolumn).append (show IsLine ": " by decide)
    simpa [toString, String.append_assoc] using hplace.append hfault

end Syntax

end PipeScript
