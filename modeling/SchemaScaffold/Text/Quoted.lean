/-!
Strings as quoted literals. `escape` prepares a text for a double-quoted literal of generated code;
`jsonLiteral` writes a JSON string whose only escapes are those that JSON demands, so every other
character stands for itself.
-/

namespace SchemaScaffold.Text

def escapeChar : Char → List Char
  | '\\' => ['\\', '\\']
  | '"' => ['\\', '"']
  | '\n' => ['\\', 'n']
  | c => [c]

/-- Backslash, double quote and line break, each with a backslash before it. -/
def escape (s : String) : String := String.ofList (s.toList.flatMap escapeChar)

/-- One lower-case hexadecimal digit. -/
def hexDigit (n : Nat) : Char := if n < 10 then Char.ofNat (48 + n) else Char.ofNat (87 + n)

/-- A 16-bit unit as `\u` and four digits. -/
def unicodeEscape (n : Nat) : List Char :=
  ['\\', 'u', hexDigit (n / 4096 % 16), hexDigit (n / 256 % 16), hexDigit (n / 16 % 16),
    hexDigit (n % 16)]

/-- The short escapes of JSON, then a numeric escape for the other control characters. -/
def jsonChar : Char → List Char
  | '"' => ['\\', '"']
  | '\\' => ['\\', '\\']
  | '\n' => ['\\', 'n']
  | '\r' => ['\\', 'r']
  | '\t' => ['\\', 't']
  | '\x0c' => ['\\', 'f']
  | '\x08' => ['\\', 'b']
  | c => if c.toNat < 32 then unicodeEscape c.toNat else [c]

def jsonLiteral (s : String) : String :=
  String.ofList ('"' :: s.toList.flatMap jsonChar ++ ['"'])

end SchemaScaffold.Text
