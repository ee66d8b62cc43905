import IncrementalBuild.CommandLine
import IncrementalBuild.Text.Blank
import IncrementalBuild.Text.Lowercase

/-!
# Logging

While a build goes on it logs events, each with a level and a source. The
sources form a hierarchy, and a filter chooses by them how much is logged: its
directives each let the events of some sources pass up to a level, and among
those that concern a source the one that names it most closely decides.

A filter is written as directives between commas. A directive is a level, a
source, or both with an equals sign between them; a source alone lets
everything pass. A part between brackets restricts a directive to spans, of
which a build has none.
-/

namespace IncrementalBuild

/-- Something that happens in a build and may be logged. -/
structure LogEvent where
  level : LogLevel
  source : String
  deriving DecidableEq

/-- An event as it is logged. -/
def LogEvent.text (e : LogEvent) : String := s!"{e.level.name} {e.source}"

/-- What a filter says about the events of some sources. -/
structure LogDirective where
  /-- What the names of the sources begin with. Without it, all are meant. -/
  source : Option String
  /-- The least severe level that passes, if any does. -/
  limit : Option LogLevel
  deriving DecidableEq

namespace LogDirective

/-- Whether a directive concerns an event. -/
def concerns (d : LogDirective) (e : LogEvent) : Bool :=
  match d.source with
  | none => true
  | some source => e.source.startsWith source

/-- How closely a directive names what it concerns. -/
def closeness (d : LogDirective) : Nat :=
  match d.source with
  | none => 0
  | some source => source.utf8ByteSize + 1

/-- Whether an event that a directive concerns passes. -/
def admits (d : LogDirective) (e : LogEvent) : Bool :=
  match d.limit with
  | none => false
  | some limit => e.level.rank ≤ limit.rank

end LogDirective

/-- **What is logged.** -/
structure LogFilter where
  directives : List LogDirective

namespace LogFilter

/-- The filter that lets everything pass up to a level. -/
def upTo (level : LogLevel) : LogFilter := ⟨[⟨none, some level⟩]⟩

/-- The closer one of two directives; of equally close ones, the later. -/
def closer (best : Option LogDirective) (d : LogDirective) : Option LogDirective :=
  match best with
  | none => some d
  | some b => if b.closeness ≤ d.closeness then some d else some b

/-- **Whether an event is logged.** -/
def passes (f : LogFilter) (e : LogEvent) : Bool :=
  match (f.directives.filter (·.concerns e)).foldl closer none with
  | none => false
  | some d => d.admits e

/-! ## Reading -/

/-- The level up to which a name or a number lets events pass. Zero and `off`
let none pass. -/
def limit? (cs : List Char) : Option (Option LogLevel) :=
  let digits := match cs with
    | '+' :: rest => rest
    | _ => cs
  let numbered := if digits.isEmpty then none else Text.number? 10 digits
  match numbered with
  | some 0 => some none
  | some (n + 1) => (LogLevel.all[n]?).map some
  | none =>
    let name := String.ofList (cs.map Char.toLower)
    if name = "off" then some none else (LogLevel.ofName? name).map some

/-- The limit behind an equals sign. Where nothing stands there, everything
passes. -/
def limitOrAll? (cs : List Char) : Option (Option LogLevel) :=
  if cs.isEmpty then some (some .trace) else limit? cs

/-- Whether what follows an opening bracket is well formed: the name of a span
and perhaps fields in braces, the closing bracket, and perhaps a limit. -/
def isSpanPart (cs : List Char) : Bool :=
  let afterName := cs.dropWhile fun c => c ≠ ']' && c ≠ '\x7b'
  let closed := match afterName with
    | '\x7b' :: rest =>
      let fields := rest.takeWhile (· ≠ '\x7d')
      if fields.isEmpty then [] else (rest.drop fields.length).tail
    | rest => rest
  match closed with
  | [']'] => true
  | ']' :: '=' :: limit => (limitOrAll? limit).isSome
  | _ => false

/-- Whether a character can begin a directive. -/
def canBegin (c : Char) : Bool :=
  c = '-' || c = ':' || c = '_' || c.isAlphanum || 128 ≤ c.toNat

/-- The directive that characters write, if it is well formed. One that is
restricted to spans concerns no event and is left out. -/
def directive? (cs : List Char) : Option (Option LogDirective) :=
  match cs with
  | [] => none
  | '[' :: rest => if isSpanPart rest then some none else none
  | c :: _ =>
    if canBegin c then
      let name := cs.takeWhile fun c => c ≠ '=' && c ≠ '['
      let source := String.ofList name
      match cs.drop name.length with
      | [] =>
        match limit? cs with
        | some limit => some (some ⟨none, limit⟩)
        | none => some (some ⟨some source, some .trace⟩)
      | '=' :: limit => (limitOrAll? limit).map fun l => some ⟨some source, l⟩
      | _ :: rest => if isSpanPart rest then some none else none
    else none

/-- The filter that directives between commas write. Where there are none at
all, only errors are logged. -/
def read? (setting : String) : Option LogFilter :=
  let parts := (setting.splitOn ",").filter (· ≠ "")
  (parts.mapM fun part => directive? (Text.trimChars part.toList)).map fun ds =>
    if ds.isEmpty then upTo .error else ⟨ds.filterMap id⟩

/-- The filter of a setting. A setting that is no filter counts as none, and
then everything passes up to the level `info`. -/
def ofSetting (setting : Option String) : LogFilter :=
  match setting with
  | none => upTo .info
  | some text =>
    let name := Text.lowercase (Text.trim text)
    match LogLevel.ofName? (if name = "warning" then "warn" else name) with
    | some level => upTo level
    | none => (read? (Text.trim text)).getD (upTo .info)

end LogFilter

/-- The filter that a command line and a setting choose; the command line goes
first. -/
def CommandLine.logFilter (c : CommandLine) (setting : Option String) : LogFilter :=
  match c.logLevel with
  | some level => .upTo level
  | none => .ofSetting setting

end IncrementalBuild
