/-!
# Characters in error texts

An error that names a character shows it between single quotes. Quotes, backslashes and the usual control
characters are escaped by a letter; whatever has no visible form of its own is shown by its code. The table of
invisible characters covers the codes below 256, which is all that a single byte can name.
-/

set_option autoImplicit false

namespace N3.CharLiteral

def hexDigits (n : Nat) : String := String.ofList (Nat.toDigits 16 n)

/-- Control characters, the no-break space and the soft hyphen have no visible form. -/
def isInvisible (n : Nat) : Bool := n < 0x20 || (0x7F ≤ n && n ≤ 0xA0) || n == 0xAD

def render (b : UInt8) : String :=
  let body :=
    match b.toNat with
    | 0x00 => "\\0"
    | 0x09 => "\\t"
    | 0x0A => "\\n"
    | 0x0D => "\\r"
    | 0x27 => "\\'"
    | 0x5C => "\\\\"
    | n => if isInvisible n then "\\u\x7b" ++ hexDigits n ++ "\x7d" else String.singleton (Char.ofNat n)
  "'" ++ body ++ "'"

end N3.CharLiteral
