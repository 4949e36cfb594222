import NexaRoute.Go.Parse

/-!
# JSON

`encoding/json` as far as a request body goes: text to a document, and which documents decode into
a Go type without an error. A document keeps the members of an object in order and with their
duplicates, since the readers of this program treat those differently.

Reading is in three passes, each a machine that takes one symbol at a time: bytes to runes, runes
to tokens, tokens to a document.

## Main definitions

* `parseJSON` — text to documents
* `Kind.fits` — which documents decode
-/

namespace NexaRoute.Go

/-! ### Runes -/

/-- A rune that is not complete: the bytes it still needs, the bounds of the next one, the value so
far and the number of bytes seen. -/
structure Pending where
  need : ℕ
  lo : UInt8
  hi : UInt8
  value : ℕ
  seen : ℕ

/-- The replacement character. -/
def runeError : Char := Char.ofNat 0xFFFD

/-- A byte where a rune begins: a rune, or the beginning of one. -/
def firstByte (b : UInt8) : List Char × Option Pending :=
  if b < 0x80 then ([Char.ofNat b.toNat], none)
  else if b < 0xC2 then ([runeError], none)
  else if b < 0xE0 then ([], some ⟨1, 0x80, 0xBF, b.toNat % 32, 1⟩)
  else if b == 0xE0 then ([], some ⟨2, 0xA0, 0xBF, 0, 1⟩)
  else if b == 0xED then ([], some ⟨2, 0x80, 0x9F, 13, 1⟩)
  else if b < 0xF0 then ([], some ⟨2, 0x80, 0xBF, b.toNat % 16, 1⟩)
  else if b == 0xF0 then ([], some ⟨3, 0x90, 0xBF, 0, 1⟩)
  else if b < 0xF4 then ([], some ⟨3, 0x80, 0xBF, b.toNat % 8, 1⟩)
  else if b == 0xF4 then ([], some ⟨3, 0x80, 0x8F, 4, 1⟩)
  else ([runeError], none)

/-- One byte. A byte that does not continue a rune makes every byte of that rune an error, and
begins anew. -/
def nextByte : Option Pending → UInt8 → List Char × Option Pending
  | none, b => firstByte b
  | some p, b =>
    if b < p.lo || p.hi < b then
      ((List.replicate p.seen runeError) ++ (firstByte b).1, (firstByte b).2)
    else if p.need ≤ 1 then ([Char.ofNat (p.value * 64 + b.toNat % 64)], none)
    else ([], some ⟨p.need - 1, 0x80, 0xBF, p.value * 64 + b.toNat % 64, p.seen + 1⟩)

/-- The runes of the bytes that follow a rune begun. -/
def runesFrom : Option Pending → List UInt8 → List Char
  | none, [] => []
  | some p, [] => List.replicate p.seen runeError
  | p, b :: rest => (nextByte p b).1 ++ runesFrom (nextByte p b).2 rest

/-- The runes of a byte string. -/
def runes (body : List UInt8) : List Char := runesFrom none body

/-! ### Tokens -/

inductive Token
  | lbrace
  | rbrace
  | lbracket
  | rbracket
  | colon
  | comma
  | null
  | bool (b : Bool)
  | number (literal : String)
  | str (s : String)
  deriving DecidableEq, Repr

/-- A piece of a string: a rune, or the code unit of an escape. -/
inductive Piece
  | rune (c : Char)
  | unit (n : ℕ)
  deriving DecidableEq, Repr

/-- The runes of a string's pieces. Two escapes that are a surrogate pair are one rune; any other
surrogate is U+FFFD. -/
def unquote : List Piece → List Char
  | [] => []
  | .rune c :: rest => c :: unquote rest
  | [.unit n] => [if 0xD800 ≤ n ∧ n < 0xE000 then runeError else Char.ofNat n]
  | .unit n :: .rune c :: rest =>
    (if 0xD800 ≤ n ∧ n < 0xE000 then runeError else Char.ofNat n) :: c :: unquote rest
  | .unit n :: .unit m :: rest =>
    if 0xD800 ≤ n ∧ n < 0xDC00 ∧ 0xDC00 ≤ m ∧ m < 0xE000 then
      Char.ofNat (0x10000 + (n - 0xD800) * 0x400 + (m - 0xDC00)) :: unquote rest
    else (if 0xD800 ≤ n ∧ n < 0xE000 then runeError else Char.ofNat n) :: unquote (.unit m :: rest)

/-- The parts of a number: whether it is negative, and the digits before the point, behind it and
of the exponent with its sign. -/
structure Number where
  negative : Bool
  whole : List Char
  fraction : Option (List Char)
  exponent : Option (Bool × List Char)

/-- The exponent, and nothing behind it. -/
def readExponent : List Char → Option (Option (Bool × List Char))
  | [] => some none
  | e :: rest =>
    if e != 'e' && e != 'E' then none
    else
      let (negative, digits) := match rest with
        | '-' :: digits => (true, digits)
        | '+' :: digits => (false, digits)
        | digits => (false, digits)
      if digits ≠ [] ∧ digits.all Char.isDigit then some (some (negative, digits)) else none

def readNumber (l : List Char) : Option Number := do
  let (negative, l) := match l with
    | '-' :: rest => (true, rest)
    | l => (false, l)
  let whole := l.takeWhile Char.isDigit
  if whole = [] ∨ (whole.head? = some '0' ∧ 1 < whole.length) then none
  else match l.dropWhile Char.isDigit with
    | '.' :: rest =>
      let fraction := rest.takeWhile Char.isDigit
      if fraction = [] then none
      else do
        let exponent ← readExponent (rest.dropWhile Char.isDigit)
        some ⟨negative, whole, some fraction, exponent⟩
    | rest => do
      let exponent ← readExponent rest
      some ⟨negative, whole, none, exponent⟩

def word (l : List Char) : Option Token :=
  if l = "null".toList then some .null
  else if l = "true".toList then some (.bool true)
  else if l = "false".toList then some (.bool false)
  else (readNumber l).map fun _ => .number (String.ofList l)

/-- Where the lexer is. What is read of a word or a string is kept backwards. -/
inductive LexState
  | idle
  | word (read : List Char)
  | str (read : List Piece)
  | escape (read : List Piece)
  | hex (read : List Piece) (value digits : ℕ)

/-- A rune outside words and strings. -/
def LexState.start (c : Char) : List Token × LexState :=
  if c == ' ' || c == '\t' || c == '\r' || c == '\n' then ([], .idle)
  else if c == '"' then ([], .str [])
  else if c == '{' then ([.lbrace], .idle)
  else if c == '}' then ([.rbrace], .idle)
  else if c == '[' then ([.lbracket], .idle)
  else if c == ']' then ([.rbracket], .idle)
  else if c == ':' then ([.colon], .idle)
  else if c == ',' then ([.comma], .idle)
  else ([], .word [c])

/-- The rune of an escape of one letter. -/
def escaped (c : Char) : Option Char :=
  if c == '"' || c == '\\' || c == '/' then some c
  else if c == 'b' then some (Char.ofNat 8)
  else if c == 'f' then some (Char.ofNat 12)
  else if c == 'n' then some '\n'
  else if c == 'r' then some '\r'
  else if c == 't' then some '\t'
  else none

/-- Whether a rune goes on with a word. -/
def wordRune (c : Char) : Bool :=
  match LexState.start c with
  | (_, .word _) => true
  | _ => false

def LexState.step : LexState → Char → Option (List Token × LexState)
  | .idle, c => some (start c)
  | .word read, c =>
    if wordRune c then some ([], .word (c :: read))
    else (Go.word read.reverse).map fun t => (t :: (start c).1, (start c).2)
  | .str read, c =>
    if c == '"' then some ([.str (String.ofList (unquote read.reverse))], .idle)
    else if c == '\\' then some ([], .escape read)
    else if c.val < 0x20 then none
    else some ([], .str (.rune c :: read))
  | .escape read, c =>
    if c == 'u' then some ([], .hex read 0 0)
    else (escaped c).map fun e => ([], .str (.rune e :: read))
  | .hex read value digits, c =>
    (fromHexChar c).map fun d =>
      if digits < 3 then ([], .hex read (value * 16 + d) (digits + 1))
      else ([], .str (.unit (value * 16 + d) :: read))

/-- The tokens of the runes that follow. -/
def lexFrom : LexState → List Char → Option (List Token)
  | .idle, [] => some []
  | .word read, [] => (word read.reverse).map ([·])
  | _, [] => none
  | s, c :: rest => do
    let (tokens, s') ← s.step c
    let more ← lexFrom s' rest
    some (tokens ++ more)

/-- The tokens of a text. -/
def lex (l : List Char) : Option (List Token) := lexFrom .idle l

/-! ### Documents -/

inductive Json
  | null
  | bool (b : Bool)
  | number (literal : String)
  | str (s : String)
  | arr (items : List Json)
  | obj (members : List (String × Json))
  deriving Repr

/-- An array or an object that is not closed: its items so far, or its members so far and the key
whose value is being read. -/
inductive Frame
  | arr (items : List Json)
  | obj (members : List (String × Json)) (key : String)

/-- What may come next. `first` and `firstKey` are right behind an opening bracket, where the
closing one may come. -/
inductive ParseState
  | value (stack : List Frame)
  | first (stack : List Frame)
  | firstKey (stack : List Frame)
  | key (members : List (String × Json)) (stack : List Frame)
  | colon (key : String) (members : List (String × Json)) (stack : List Frame)
  | after (v : Json) (stack : List Frame)

/-- A token where a value begins. -/
def ParseState.open (stack : List Frame) : Token → Option ParseState
  | .null => some (.after .null stack)
  | .bool b => some (.after (.bool b) stack)
  | .number literal => some (.after (.number literal) stack)
  | .str s => some (.after (.str s) stack)
  | .lbracket => some (.first stack)
  | .lbrace => some (.firstKey stack)
  | _ => none

def ParseState.step : ParseState → Token → Option ParseState
  | .value stack, t => ParseState.open stack t
  | .first stack, .rbracket => some (.after (.arr []) stack)
  | .first stack, t => ParseState.open (.arr [] :: stack) t
  | .firstKey stack, .rbrace => some (.after (.obj []) stack)
  | .firstKey stack, .str k => some (.colon k [] stack)
  | .key members stack, .str k => some (.colon k members stack)
  | .colon k members stack, .colon => some (.value (.obj members k :: stack))
  | .after v (.arr items :: stack), .comma => some (.value (.arr (items ++ [v]) :: stack))
  | .after v (.arr items :: stack), .rbracket => some (.after (.arr (items ++ [v])) stack)
  | .after v (.obj members k :: stack), .comma => some (.key (members ++ [(k, v)]) stack)
  | .after v (.obj members k :: stack), .rbrace => some (.after (.obj (members ++ [(k, v)])) stack)
  | _, _ => none

/-- A text as one document; `none` when it is not JSON. -/
def parseJSON (body : List UInt8) : Option Json := do
  let tokens ← lex (runes body)
  match ← tokens.foldlM ParseState.step (.value []) with
  | .after v [] => some v
  | _ => none

/-- The value of a key in a map: of a key that occurs again, the last one. -/
def Json.member (doc : Json) (key : String) : Option Json :=
  match doc with
  | .obj members => (members.reverse.find? (·.1 == key)).map (·.2)
  | _ => none

/-- A value as a string; empty when it is none. -/
def Json.text : Json → String
  | .str s => s
  | _ => ""

mutual

/-- How deep brackets are nested. -/
def Json.depth : Json → ℕ
  | .arr items => 1 + depthItems items
  | .obj members => 1 + depthMembers members
  | _ => 0

def depthItems : List Json → ℕ
  | [] => 0
  | v :: items => max v.depth (depthItems items)

def depthMembers : List (String × Json) → ℕ
  | [] => 0
  | (_, v) :: members => max v.depth (depthMembers members)

end

/-- The nesting `encoding/json` accepts. -/
def maxNestingDepth : ℕ := 10000

theorem depth_le_of_mem {members : List (String × Json)} {m : String × Json} (h : m ∈ members) :
    m.2.depth ≤ depthMembers members := by
  induction members with
  | nil => cases h
  | cons m' members ih =>
    rcases List.mem_cons.mp h with rfl | h
    · exact Nat.le_max_left ..
    · exact (ih h).trans (Nat.le_max_right ..)

/-! ### Decoding into Go types -/

/-- A Go type, as far as decoding goes. A pointer decodes as what it points to. `raw` is
`json.RawMessage`, `object` is `map[string]any`. -/
inductive Kind
  | string
  | int
  | float
  | bool
  | any
  | raw
  | object
  | slice (elem : Kind)
  | struct (fields : List (String × Kind))

/-- A rune under the folding of field names. The other foldings of Unicode do not lead to the
letters a field name here consists of. -/
def foldRune (c : Char) : Char :=
  if 97 ≤ c.toNat && c.toNat ≤ 122 then Char.ofNat (c.toNat - 32)
  else if c.toNat == 0x17F then 'S'
  else if c.toNat == 0x212A then 'K'
  else c

/-- Whether a key goes to the field of a name: they are equal up to letter case. -/
def fieldNamed (name key : String) : Bool := name.toList.map foldRune == key.toList.map foldRune

def fieldFor (fields : List (String × Kind)) (key : String) : Option Kind :=
  (fields.find? fun f => fieldNamed f.1 key).map (·.2)

/-- Whether a number literal is an integer of 64 bits. -/
def isInt64 (literal : String) : Bool := (parseInt64 literal).isSome

/-- Whether a number literal rounds to a finite `float64`. -/
def isFloat64 (literal : String) : Bool :=
  match readNumber literal.toList with
  | none => false
  | some n =>
    let fraction := n.fraction.getD []
    let digits := Nat.ofDigitChars 10 (n.whole ++ fraction) 0
    let exponent : ℤ := (match n.exponent with
      | none => 0
      | some (negative, ds) =>
        if negative then -(Nat.ofDigitChars 10 ds 0 : ℤ) else Nat.ofDigitChars 10 ds 0) -
      fraction.length
    let limit := 2 ^ 1024 - 2 ^ 970
    digits == 0 || decide (digits * 10 ^ exponent.toNat < limit * 10 ^ (-exponent).toNat)

mutual

/-- Whether a document decodes into a type without an error. -/
def Kind.fits : Kind → Json → Bool
  | _, .null => true
  | k, .bool _ => match k with
    | .bool | .any | .raw => true
    | _ => false
  | k, .number literal => match k with
    | .int => isInt64 literal
    | .float | .any => isFloat64 literal
    | .raw => true
    | _ => false
  | k, .str _ => match k with
    | .string | .any | .raw => true
    | _ => false
  | k, .arr items => match k with
    | .slice elem => fitItems elem items
    | .any => fitItems .any items
    | .raw => true
    | _ => false
  | k, .obj members => match k with
    | .struct fields => fitMembers (fieldFor fields) members
    | .object | .any => fitMembers (fun _ => some .any) members
    | .raw => true
    | _ => false

/-- Whether every item decodes. -/
def fitItems (elem : Kind) : List Json → Bool
  | [] => true
  | v :: items => elem.fits v && fitItems elem items

/-- Whether every member that has a type decodes into it. -/
def fitMembers (type : String → Option Kind) : List (String × Json) → Bool
  | [] => true
  | (key, v) :: members =>
    (match type key with
      | none => true
      | some k => k.fits v) && fitMembers type members

end

end NexaRoute.Go
