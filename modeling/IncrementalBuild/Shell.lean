/-!
# Shell scripts

The tools of a build may be scripts in the command language of the shell. A
script is a list of statements: simple commands with their redirections, and
what is composed of statements by the usual words and operators.

Everything a script works on is a sequence of bytes, and each byte is written
as the character with its number.
-/

namespace IncrementalBuild.Shell

/-- A sequence of bytes, each as the character with its number. -/
abbrev Bytes := List Char

namespace Bytes

def ofByteArray (b : ByteArray) : Bytes := b.data.toList.map fun x => Char.ofNat x.toNat

def toByteArray (b : Bytes) : ByteArray := ⟨(b.map fun c => c.toNat.toUInt8).toArray⟩

def ofText (s : String) : Bytes := ofByteArray s.toUTF8

/-- The bytes inside of a text that is itself made of bytes. -/
def shown (b : Bytes) : String := String.ofList b

/-- The text of some bytes, what is no UTF-8 replaced by a replacement
character byte for byte. -/
def toText (b : Bytes) : String := (String.fromUTF8? (toByteArray b)).getD (String.ofList b)

end Bytes

/-- What stands behind a dollar sign or between accents. -/
inductive Expansion where
  /-- A parameter, with what is to be done with its value. -/
  | parameter (content : Bytes)
  /-- The output of a script. -/
  | command (script : Bytes)

/-- A part of a word. -/
inductive Part where
  | text (quoted : Bool) (value : Bytes)
  | expansion (quoted : Bool) (what : Expansion)

/-- A word, as it is written. -/
abbrev Word := List Part

/-- What a redirection does with its target. -/
inductive Direction where
  | input
  | output
  | append
  /-- The target is another descriptor. -/
  | duplicate
  /-- The target is itself what is read. -/
  | text
  deriving DecidableEq

/-- A redirection of a descriptor. -/
structure Redirection where
  descriptor : Nat
  direction : Direction
  target : Word

/-- **A statement of a script.** -/
inductive Statement where
  /-- Assignments, and a command with its arguments. -/
  | simple (line : Nat) (assignments : List (Bytes × Word)) (words : List Word)
    (redirections : List Redirection)
  /-- Statements in braces, or in parentheses. -/
  | group (isolated : Bool) (body : List Statement)
  | branch (condition body otherwise : List Statement)
  /-- Statements that are repeated as long as a condition holds, or as long as
  it does not. -/
  | loop (negated : Bool) (condition body : List Statement)
  /-- Statements that are repeated for each of some words, or for each
  argument of the script. -/
  | each (name : Bytes) (words : Option (List Word)) (body : List Statement)
  | choose (word : Word) (cases : List (List Word × List Statement))
  | redirected (line : Nat) (body : Statement) (redirections : List Redirection)
  | both (first second : Statement)
  | either (first second : Statement)
  | negated (body : Statement)
  /-- A command that is made of a statement. -/
  | define (name : Bytes) (body : Statement)
  | pipe (first second : Statement)

end IncrementalBuild.Shell
