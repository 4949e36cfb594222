import NexaRoute.Go.Json

/-!
# JSON text

`json.Marshal` of a document. A document stands for a Go value here, so a number keeps its literal
and an object the order of its members, where Go writes the shortest literal of the float and the
members sorted. What is proved with it is about texts whose numbers are not looked at.

## Main definitions

* `write`, `marshalJSON` — the text of a document, with the escapes of Go
* `Json.readable` — every number of a document is a number literal

## Main results

* `marshalJSON_ne` — the text of a document is not empty
-/

namespace NexaRoute.Go

open List

/-! ### Writing -/

/-- Four digits of base sixteen. -/
def hex4 (n : ℕ) : List Char :=
  [Nat.digitChar (n / 4096 % 16), Nat.digitChar (n / 256 % 16), Nat.digitChar (n / 16 % 16),
    Nat.digitChar (n % 16)]

/-- The letter of an escape of one letter. -/
def shortEscape (c : Char) : Option Char :=
  if c = '"' ∨ c = '\\' then some c
  else if c = '\n' then some 'n'
  else if c = '\r' then some 'r'
  else if c = '\t' then some 't'
  else if c.toNat = 8 then some 'b'
  else if c.toNat = 12 then some 'f'
  else none

/-- Whether a rune is written as a number: control characters, what a browser could take for markup,
and the two line separators. -/
def longEscape (c : Char) : Bool :=
  decide (c.toNat < 0x20) || c == '<' || c == '>' || c == '&' || c.toNat == 0x2028 ||
    c.toNat == 0x2029

/-- A rune inside a string. -/
def writeRune (c : Char) : List Char :=
  match shortEscape c with
  | some e => ['\\', e]
  | none => if longEscape c then '\\' :: 'u' :: hex4 c.toNat else [c]

def writeString (s : String) : List Char := '"' :: (s.toList.flatMap writeRune ++ ['"'])

mutual

/-- The runes of a document. -/
def write : Json → List Char
  | .null => "null".toList
  | .bool true => "true".toList
  | .bool false => "false".toList
  | .number literal => literal.toList
  | .str s => writeString s
  | .arr [] => ['[', ']']
  | .arr (v :: items) => '[' :: (write v ++ writeItems items)
  | .obj [] => ['{', '}']
  | .obj ((k, v) :: members) => '{' :: (writeString k ++ ':' :: (write v ++ writeMembers members))

/-- The items behind the first one, and the bracket. -/
def writeItems : List Json → List Char
  | [] => [']']
  | v :: items => ',' :: (write v ++ writeItems items)

/-- The members behind the first one, and the bracket. -/
def writeMembers : List (String × Json) → List Char
  | [] => ['}']
  | (k, v) :: members => ',' :: (writeString k ++ ':' :: (write v ++ writeMembers members))

end

/-- `json.Marshal`. -/
def marshalJSON (doc : Json) : String := String.ofList (write doc)

mutual

/-- Whether every number of a document is a number literal. -/
def Json.readable : Json → Bool
  | .number literal => (readNumber literal.toList).isSome
  | .arr items => readableItems items
  | .obj members => readableMembers members
  | _ => true

def readableItems : List Json → Bool
  | [] => true
  | v :: items => v.readable && readableItems items

def readableMembers : List (String × Json) → Bool
  | [] => true
  | (_, v) :: members => v.readable && readableMembers members

end

/-- The text of a document is not empty. -/
theorem marshalJSON_ne {v : Json} (h : v.readable = true) : marshalJSON v ≠ "" := by
  have hwrite : write v ≠ [] := by
    cases v with
    | number literal =>
      intro hnil
      rw [write] at hnil
      rw [Json.readable, hnil] at h
      cases h
    | bool b => cases b <;> simp [write]
    | arr items => cases items <;> simp [write]
    | obj members => rcases members with _ | ⟨⟨k, v⟩, members⟩ <;> simp [write]
    | null | str s => simp [write, writeString]
  intro hnil
  exact hwrite (String.toList_ofList.symm.trans (congrArg String.toList hnil))

end NexaRoute.Go
