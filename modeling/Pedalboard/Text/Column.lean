/-!
# Columns

Cells of tables are filled up with spaces to a width in characters; a wider one stays as it is.
-/

namespace Pedalboard

def spaces (n : Nat) : String := String.ofList (List.replicate n ' ')

/-- The text at the left of its column. -/
def alignLeft (width : Nat) (text : String) : String := text ++ spaces (width - text.length)

/-- The text at the right of its column. -/
def alignRight (width : Nat) (text : String) : String := spaces (width - text.length) ++ text

/-- A line of equals signs under a title, one for each of its bytes. -/
def underline (title : String) : String := String.ofList (List.replicate title.utf8ByteSize '=')

end Pedalboard
