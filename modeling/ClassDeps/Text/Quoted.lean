import ClassDeps.Text.Printable

/-!
# Quoted texts in listings

Texts and characters in quotes, with escapes for what could not be told apart or seen.

## Main definitions

* `Text.quote` — a text in double quotes
* `Text.quoteChar` — a character in single quotes
-/

namespace ClassDeps.Text

/-- How a character stands in a quoted text. The backslash and the quote around the text get a backslash. -/
def escape (quote c : Char) : String :=
  if c = '\\' || c = quote then String.ofList ['\\', c]
  else match c with
    | '\n' => "\\n"
    | '\t' => "\\t"
    | '\r' => "\\r"
    | '\x00' => "\\0"
    | _ =>
      if isPrintable c then c.toString
      else "\\u\x7b" ++ String.ofList (Nat.toDigits 16 c.toNat) ++ "\x7d"

/-- Characters between two quotes. -/
def between (quote : Char) (text : List Char) : String :=
  quote.toString ++ String.join (text.map (escape quote)) ++ quote.toString

def quote (text : String) : String :=
  between '"' text.toList

def quoteChar (c : Char) : String :=
  between '\'' [c]

end ClassDeps.Text
