/-!
# Bytes

Text counted in the bytes of its encoding.
-/

namespace StyleCheck.Text

/-- The number of bytes that characters take. -/
def byteLength : List Char → Nat
  | [] => 0
  | c :: cs => c.utf8Size + byteLength cs

end StyleCheck.Text
