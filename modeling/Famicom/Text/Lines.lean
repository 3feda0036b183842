/-!
# Lines of a text

A line ends with a line feed, and a carriage return right before the line feed belongs
to the end as well. What follows the last line feed is a line of its own unless it is
empty. `printedLines` are the lines that messages make when each is printed with a
line feed behind it : one for a message without line feeds (`lines_printed`), more for
a message that holds some.
-/

namespace Famicom.Text

/-- A line, in reverse order, without the carriage return that belongs to its end. -/
def dropReturn : List Char → List Char
  | '\r' :: line => line
  | line => line

/-- The lines of a text behind the part of a line in `done`, which is in reverse order. -/
def linesOnto (done : List Char) : List Char → List (List Char)
  | [] => if done.isEmpty then [] else [done.reverse]
  | c :: rest =>
    if c = '\n' then (dropReturn done).reverse :: linesOnto [] rest
    else linesOnto (c :: done) rest

/-- The lines of a text. -/
def lines (text : List Char) : List (List Char) := linesOnto [] text

theorem linesOnto_append {line : List Char} (h : '\n' ∉ line) (done rest : List Char) :
    linesOnto done (line ++ '\n' :: rest)
      = (dropReturn (line.reverse ++ done)).reverse :: lines rest := by
  induction line generalizing done with
  | nil => simp [linesOnto, lines]
  | cons c line ih =>
    have hc : c ≠ '\n' := fun hc => h (hc ▸ List.mem_cons_self)
    have hline : '\n' ∉ line := fun hline => h (List.mem_cons_of_mem c hline)
    rw [List.cons_append, linesOnto, if_neg hc, ih hline]
    simp

/-- A text without line feeds is one line once it is printed. -/
theorem lines_printed {line : List Char} (h : '\n' ∉ line) (rest : List Char) :
    lines (line ++ '\n' :: rest) = (dropReturn line.reverse).reverse :: lines rest := by
  rw [lines, linesOnto_append h, List.append_nil]

/-- The lines of messages that are printed one after the other. -/
def printedLines (messages : List String) : List String :=
  (lines (messages.flatMap fun m => m.toList ++ ['\n'])).map String.ofList

end Famicom.Text
