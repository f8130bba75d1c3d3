/-! # Lines of a byte stream

A line ends at a line feed; one carriage return directly before it belongs to
the line end. Bytes after the last line feed form a line of their own, kept as
they are. A line whose bytes are not UTF-8 cannot be read as text.
-/

namespace Captions.Text

/-- Why a line could not be read. -/
inductive ReadFault where
  /-- The bytes of the line are not UTF-8. -/
  | notUtf8
  /-- The stream itself failed, with the system's own words for it. -/
  | system (message : String)
deriving DecidableEq, Repr

/-- The reason as shown to the user. -/
def ReadFault.message : ReadFault → String
  | .notUtf8 => "stream did not contain valid UTF-8"
  | .system message => message

/-- The outcome of reading one line. -/
abbrev LineRead := Except ReadFault String

/-- The byte that ends a line. -/
def lineFeed : UInt8 := 10

/-- The byte that may stand before a line feed as part of the line end. -/
def carriageReturn : UInt8 := 13

/-- Puts a byte in front of the first line, which is made if there is none. -/
def consByte (b : UInt8) : List (List UInt8) → List (List UInt8)
  | [] => [[b]]
  | line :: lines => (b :: line) :: lines

/-- The lines of a stream as bytes, without their line ends. -/
def splitLines : List UInt8 → List (List UInt8)
  | [] => []
  | b :: rest =>
    if b = lineFeed then [] :: splitLines rest
    else if b = carriageReturn ∧ rest.head? = some lineFeed then splitLines rest
    else consByte b (splitLines rest)

/-- Reads the bytes of one line as text. -/
def decodeLine (bytes : List UInt8) : LineRead :=
  match String.fromUTF8? ⟨bytes.toArray⟩ with
  | some line => .ok line
  | none => .error .notUtf8

/-- The readings of all lines of a stream. -/
def readLines (bytes : List UInt8) : List LineRead :=
  (splitLines bytes).map decodeLine

/-- A line feed ends a line, whatever follows. -/
theorem splitLines_line (line : List UInt8) (rest : List UInt8)
    (h : ∀ b ∈ line, b ≠ lineFeed ∧ b ≠ carriageReturn) :
    splitLines (line ++ lineFeed :: rest) = line :: splitLines rest := by
  induction line with
  | nil => simp [splitLines]
  | cons b line ih =>
      have hb := h b (by simp)
      have := ih fun c hc => h c (by simp [hc])
      simp [splitLines, hb.1, hb.2, this, consByte]

end Captions.Text
