import BackTester.Abstract.MboRecord

/-! # JSON texts

The texts of JSON values, with any white space between the tokens and any escapes in the strings.
How deep the brackets of a value are nested is part of its grammar, and so is which characters its
strings escape.
-/

namespace BackTester.JsonText

open MboRecord

def isWhite (c : UInt8) : Bool := c = ' ' ∨ c = '\t' ∨ c = '\n' ∨ c = '\r'

/-- Any space between two tokens. -/
def White (text : List UInt8) : Prop := ∀ c ∈ text, isWhite c = true

def Digits (text : List UInt8) : Prop := text ≠ [] ∧ ∀ c ∈ text, isDigit c = true

/-- Numbers and literals. -/
inductive Scalar : List UInt8 → Prop
  | literal {text : List UInt8} (isLiteral : text ∈ [bytes "true", bytes "false", bytes "null"]) : Scalar text
  | number {sign whole fraction exponent : List UInt8} (isSign : sign = [] ∨ sign = bytes "-") (isWhole : Digits whole)
      (isFraction : fraction = [] ∨ ∃ digits, Digits digits ∧ fraction = ('.' : UInt8) :: digits)
      (isExponent : exponent = [] ∨ ∃ mark ∈ bytes "eE", ∃ sign ∈ [[], bytes "+", bytes "-"], ∃ digits, Digits digits ∧
        exponent = mark :: (sign ++ digits)) :
      Scalar (sign ++ (whole ++ (fraction ++ exponent)))

def isHexDigit (c : UInt8) : Bool := isDigit c ∨ c ∈ bytes "abcdefABCDEF"

/-- What can be between the quotes of a string, if a backslash can be ahead of these characters. -/
inductive StringBody (escapes : List UInt8) : List UInt8 → Prop
  | nil : StringBody escapes []
  | plain {c : UInt8} {body : List UInt8} (isPlain : c ≠ '"' ∧ c ≠ '\\' ∧ 32 ≤ c) (others : StringBody escapes body) :
      StringBody escapes (c :: body)
  | escape {c : UInt8} {body : List UInt8} (isEscape : c ∈ escapes) (others : StringBody escapes body) :
      StringBody escapes (('\\' : UInt8) :: c :: body)
  | unicode {hex body : List UInt8} (four : hex.length = 4) (areHex : ∀ c ∈ hex, isHexDigit c = true)
      (others : StringBody escapes body) : StringBody escapes (bytes "\\u" ++ (hex ++ body))

/-- What a backslash can be ahead of, but for the four digits of a code point. -/
def allEscapes : List UInt8 := bytes "\"\\/bfnrt"

/-- The same without the quote. -/
def quotelessEscapes : List UInt8 := bytes "\\/bfnrt"

inductive Brackets
  | square
  | curly

def Brackets.opening : Brackets → UInt8
  | square => '['
  | curly => '{'

def Brackets.closing : Brackets → UInt8
  | square => ']'
  | curly => '}'

/-- A value, one item between brackets, or all of them with the commas. -/
inductive Part
  | value
  | item (brackets : Brackets)
  | items (brackets : Brackets)

inductive Json (escapes : List UInt8) : Part → ℕ → List UInt8 → Prop
  | scalar {depth : ℕ} {text : List UInt8} (isScalar : Scalar text) : Json escapes .value depth text
  | string {depth : ℕ} {body : List UInt8} (isBody : StringBody escapes body) : Json escapes .value depth (quoted body)
  | empty {depth : ℕ} {brackets : Brackets} {white : List UInt8} (isWhite : White white) :
      Json escapes .value (depth + 1) (brackets.opening :: (white ++ [brackets.closing]))
  | group {depth : ℕ} {brackets : Brackets} {inner : List UInt8}
      (areItems : Json escapes (.items brackets) depth inner) :
      Json escapes .value (depth + 1) (brackets.opening :: (inner ++ [brackets.closing]))
  | element {depth : ℕ} {text : List UInt8} (isValue : Json escapes .value depth text) :
      Json escapes (.item .square) depth text
  | member {depth : ℕ} {key before after text : List UInt8} (isKey : StringBody escapes key)
      (whiteBefore : White before) (whiteAfter : White after) (isValue : Json escapes .value depth text) :
      Json escapes (.item .curly) depth (quoted key ++ (before ++ (':' : UInt8) :: (after ++ text)))
  | last {depth : ℕ} {brackets : Brackets} {before text after : List UInt8} (whiteBefore : White before)
      (isItem : Json escapes (.item brackets) depth text) (whiteAfter : White after) :
      Json escapes (.items brackets) depth (before ++ (text ++ after))
  | more {depth : ℕ} {brackets : Brackets} {before text after others : List UInt8} (whiteBefore : White before)
      (isItem : Json escapes (.item brackets) depth text) (whiteAfter : White after)
      (areItems : Json escapes (.items brackets) depth others) :
      Json escapes (.items brackets) depth (before ++ (text ++ (after ++ (',' : UInt8) :: others)))

end BackTester.JsonText
