import IncrementalBuild.Diagnostic
import IncrementalBuild.Proofs.Json
import IncrementalBuild.Proofs.Plan
import Mathlib.Data.List.TakeWhile

/-!
# Diagnostics are read back and filed

What is written in one of the three forms of a line is read back as what it was, whatever the
path and the message look like: a message may hold colons, numbers and further severities, and
a path may be spelled like a severity. Two things keep the forms apart. A path has no colon in
it, so it reaches up to the first one of a line; and a blank stands behind the colon of a
severity, where a path has the first digit of its line.

A diagnostic is filed under the first input that is the path it names *or ends with it*. An
input that is tried earlier can therefore take what names another one, if that one is named by a
relative path; nothing else keeps a diagnostic from the input that it names.
-/

namespace IncrementalBuild

namespace Text

/-! ## Lines

A text is cut into lines at its line feeds, and a carriage return right before a line feed is
dropped with it. So a line that itself ends in a carriage return does not come back from a text with
plain line feeds, and this is the one thing, besides line feeds of its own, that a line must be free
of. -/

section Lines

variable {l : List Char}

/-- Without a line feed nothing is cut off: the characters are added to the current line. -/
theorem linesAfter_append (h : '\n' ∉ l) (current rest : List Char) :
    linesAfter current (l ++ rest) = linesAfter (l.reverse ++ current) rest := by
  induction l generalizing current with
  | nil => rfl
  | cons c l ih =>
    rw [List.mem_cons, not_or] at h
    have hstep : linesAfter current (c :: (l ++ rest)) = linesAfter (c :: current) (l ++ rest) :=
      if_neg (Ne.symm h.1)
    rw [List.cons_append, hstep, ih h.2, List.reverse_cons, List.append_assoc,
      List.singleton_append]

/-- The last line may do without a line feed. -/
theorem linesAfter_last (h : '\n' ∉ l) (hne : l ≠ []) : linesAfter [] l = [l] := by
  have hcurrent : l.reverse.isEmpty = false := by simpa using hne
  have hend : linesAfter l.reverse [] = [l.reverse.reverse] := by
    rw [linesAfter, hcurrent]
    rfl
  have hread := linesAfter_append h [] []
  rwa [List.append_nil, List.append_nil, hend, List.reverse_reverse] at hread

/-- **A line feed ends a line**, unless the line ends in a carriage return. -/
theorem linesAfter_lf (h : '\n' ∉ l) (hcr : l.getLast? ≠ some '\r') (rest : List Char) :
    linesAfter [] (l ++ '\n' :: rest) = l :: linesAfter [] rest := by
  have hne : ∀ line, l.reverse ≠ '\r' :: line := by
    intro line hline
    -- The line is held in reverse, so its last character is looked at first.
    rw [← List.head?_reverse, hline] at hcr
    exact hcr rfl
  rw [linesAfter_append h, List.append_nil, linesAfter, if_pos rfl, List.reverse_reverse]
  exact hne

/-- **A carriage return and a line feed end a line**, whatever the line ends in. -/
theorem linesAfter_crlf (h : '\n' ∉ l) (rest : List Char) :
    linesAfter [] (l ++ '\r' :: '\n' :: rest) = l :: linesAfter [] rest := by
  have hread : linesAfter ('\r' :: l.reverse) ('\n' :: rest)
      = l.reverse.reverse :: linesAfter [] rest := rfl
  have hcr : linesAfter l.reverse ('\r' :: '\n' :: rest)
      = linesAfter ('\r' :: l.reverse) ('\n' :: rest) := rfl
  rw [linesAfter_append h, List.append_nil, hcr, hread, List.reverse_reverse]

variable {s : String}

/-- A text of one line has one line. The empty text has none. -/
theorem lines_last (h : '\n' ∉ s.toList) (hne : s ≠ "") : lines s = [s] := by
  rw [lines, linesAfter_last h (mt String.toList_eq_nil_iff.1 hne), List.map_singleton,
    String.ofList_toList]

/-- From the characters of a line and what ends it to the texts. -/
theorem lines_append {ends text : String}
    (h : linesAfter [] (s.toList ++ (ends.toList ++ text.toList))
      = s.toList :: linesAfter [] text.toList) : lines (s ++ ends ++ text) = s :: lines text := by
  rw [lines, String.toList_append, String.toList_append, List.append_assoc, h, List.map_cons,
    String.ofList_toList, lines]

/-- A line feed ends a line of a text, unless the line ends in a carriage return. -/
theorem lines_lf (h : '\n' ∉ s.toList) (hcr : s.toList.getLast? ≠ some '\r') (text : String) :
    lines (s ++ "\n" ++ text) = s :: lines text :=
  lines_append (linesAfter_lf h hcr text.toList)

/-- A carriage return and a line feed end any line of a text. -/
theorem lines_crlf (h : '\n' ∉ s.toList) (text : String) :
    lines (s ++ "\r\n" ++ text) = s :: lines text :=
  lines_append (linesAfter_crlf h text.toList)

/-- **Joined lines are cut where they were joined**, if what joins them ends each of them. -/
theorem lines_intercalate {ends : String} {ls : List String}
    (hends : ∀ s ∈ ls, ∀ text, lines (s ++ ends ++ text) = s :: lines text)
    (hlast : ∀ s ∈ ls, lines s = [s]) : lines (ends.intercalate ls) = ls := by
  induction ls with
  | nil => rfl
  | cons s more ih =>
    -- What joins the lines stands between them, so the last line has nothing that ends it.
    cases more with
    | nil =>
      rw [String.intercalate_singleton]
      exact hlast s List.mem_cons_self
    | cons t more =>
      rw [String.intercalate_cons_cons, hends s List.mem_cons_self,
        ih (fun t ht => hends t (List.mem_cons_of_mem _ ht))
          (fun t ht => hlast t (List.mem_cons_of_mem _ ht))]

end Lines

/-! ## Blanks

A line is trimmed at its end before it is read, and blanks are skipped in front of a severity and in
front of a message. Neither takes anything from a text that has no blank there. -/

section Blanks

variable {cs : List Char}

/-- Nothing is dropped from the front of a text that does not begin with a blank. -/
theorem dropWhile_isBlank (h : cs.head?.any isBlank = false) : cs.dropWhile isBlank = cs := by
  cases cs with
  | nil => rfl
  | cons c rest =>
    have hc : isBlank c = false := h
    exact List.dropWhile_cons_of_neg (Bool.not_eq_true _ ▸ hc)

/-- Nothing is dropped from the end of a text that does not end in a blank. -/
theorem trimEndChars_eq (h : cs.getLast?.any isBlank = false) : trimEndChars cs = cs := by
  rw [← List.head?_reverse] at h
  rw [trimEndChars, dropWhile_isBlank h, List.reverse_reverse]

/-- A blank at the end does not count. -/
theorem trimEndChars_concat {c : Char} (h : isBlank c = true) :
    trimEndChars (cs ++ [c]) = trimEndChars cs := by
  rw [trimEndChars, List.reverse_append, List.reverse_singleton, List.singleton_append,
    List.dropWhile_cons_of_pos h, trimEndChars]

end Blanks

/-- The characters up to the first one that fails a test, which stands behind them. -/
theorem takeWhile_append_cons {p : Char → Bool} {l : List Char} {c : Char}
    (h : ∀ a ∈ l, p a = true) (hc : p c = false) (rest : List Char) :
    (l ++ c :: rest).takeWhile p = l ∧ (l ++ c :: rest).dropWhile p = c :: rest := by
  have hstop : ¬ p c = true := Bool.not_eq_true _ ▸ hc
  rw [List.takeWhile_append_of_pos h, List.dropWhile_append_of_pos h,
    List.takeWhile_cons_of_neg hstop, List.dropWhile_cons_of_neg hstop, List.append_nil]
  exact ⟨rfl, rfl⟩

end Text

namespace ParsedDiagnostic

/-! ## The parts of a line

A line is `path:line: severity: message`, or with a column behind the line number, or it begins with
the severity. Each part ends at a colon, and each reader is shown to stop there: a number because a
colon is no digit, a severity because none of the three names has a colon in it. What a reader
leaves is what the next one starts with. -/

section Parts

open Text

variable {rest : List Char}

/-- No severity has an empty name, so it could be taken for a path. -/
theorem name_toList_ne_nil (s : Severity) : s.name.toList ≠ [] := by
  cases s <;> decide

/-- No name of a severity begins with a blank. -/
theorem head?_name (s : Severity) : s.name.toList.head?.any isBlank = false := by
  cases s <;> rfl

/-- No name of a severity holds what ends a part of a line or a line. -/
theorem not_mem_name {c : Char} (hc : c = ':' ∨ c = '\n') (s : Severity) : c ∉ s.name.toList := by
  rcases hc with rfl | rfl <;> cases s <;> decide

/-- A severity is read with the message behind its colon, without the blanks in front of that. -/
theorem message?_name (s : Severity) (rest : List Char) :
    message? (s.name.toList ++ ':' :: rest) = some (s, String.ofList (rest.dropWhile isBlank)) := by
  cases s <;> rfl

/-- The blank in front of a severity is skipped, and nothing of the severity. -/
theorem dropWhile_isBlank_name (s : Severity) (rest : List Char) :
    (' ' :: (s.name.toList ++ rest)).dropWhile isBlank = s.name.toList ++ rest := by
  cases s <;> rfl

/-- A written number is read up to the colon behind it. -/
theorem digits?_toDigits (n : Nat) (rest : List Char) :
    digits? (Nat.toDigits 10 n ++ ':' :: rest) = some (Nat.toDigits 10 n, ':' :: rest) := by
  have hall (c) (hc : c ∈ Nat.toDigits 10 n) : isDecimalDigit c = true :=
    isDecimalDigit_of_isDigit (isDigit_toDigits hc)
  obtain ⟨htake, hdrop⟩ := takeWhile_append_cons hall (c := ':') (by decide) rest
  unfold digits?
  rw [htake, hdrop]
  split
  · next hnil => exact absurd hnil Nat.toDigits_ne_nil
  · rfl

/-- The digits of a number that fits 32 bits give the number. -/
theorem number?_toDigits_toNat (n : UInt32) : number? (Nat.toDigits 10 n.toNat) = some n := by
  rw [number?, Text.number?_toDigits]
  dsimp only
  rw [if_pos n.toNat_lt_size, UInt32.ofNat_toNat]

/-- A column as it stands in a line, behind a colon. -/
def columnChars : Option UInt32 → List Char
  | some n => ':' :: Nat.toDigits 10 n.toNat
  | none => []

/-- A line, and a column if it is known, as they stand between a path and what follows. -/
def placeChars (line : UInt32) (column? : Option UInt32) (rest : List Char) : List Char :=
  Nat.toDigits 10 line.toNat ++ (columnChars column? ++ ':' :: ' ' :: rest)

/-- What stands behind a place is passed on as it is. -/
theorem placeChars_append (line : UInt32) (column? : Option UInt32) (rest more : List Char) :
    placeChars line column? (rest ++ more) = placeChars line column? rest ++ more := by
  simp only [placeChars, List.append_assoc, List.cons_append]

/-- The line number is read first, whether a column follows it or not. -/
theorem digits?_placeChars (line : UInt32) (column? : Option UInt32) (rest : List Char) :
    digits? (placeChars line column? rest)
      = some (Nat.toDigits 10 line.toNat, columnChars column? ++ ':' :: ' ' :: rest) := by
  cases column? with
  | none => exact digits?_toDigits _ _
  | some n => exact digits?_toDigits _ _

/-- A column is read if there is one. If there is none, the colon is followed by a blank, which is
no digit. -/
theorem column_columnChars (column? : Option UInt32) (rest : List Char) :
    column (columnChars column? ++ ':' :: ' ' :: rest)
      = (column?.map fun n => Nat.toDigits 10 n.toNat, ':' :: ' ' :: rest) := by
  cases column? with
  | none => rfl
  | some n =>
    have hread := digits?_toDigits n.toNat (' ' :: rest)
    rw [columnChars, List.cons_append, column, hread]
    rfl

/-- The column that was written is the column that is known. -/
theorem bind_number? (column? : Option UInt32) :
    (column?.map fun n => Nat.toDigits 10 n.toNat).bind number? = column? := by
  cases column? with
  | none => rfl
  | some n => exact number?_toDigits_toNat n

section Located

-- In front of the first colon stands what could be a path: not empty, and not behind blanks.
variable {front : List Char} (hne : front ≠ []) (hcolon : ':' ∉ front)
  (hfirst : front.head?.any isBlank = false)

include hne hcolon hfirst

/-- A line is searched behind its first colon, for a line number and so on. -/
theorem located?_front (rest : List Char) :
    located? (front ++ ':' :: rest) = (do
      let (line, rest) ← digits? rest
      let (column, rest) := column rest
      match rest with
      | ':' :: rest => do
        let (severity, message) ← message? (rest.dropWhile isBlank)
        return ⟨some ⟨String.ofList front⟩,
          ⟨severity, message, number? line, column.bind number?⟩⟩
      | _ => none) := by
  obtain ⟨c, cs, rfl⟩ := List.exists_cons_of_ne_nil hne
  have hblank : isBlank c = false := hfirst
  have hall (a) (ha : a ∈ c :: cs) : decide (a ≠ ':') = true :=
    decide_eq_true fun he => hcolon (he ▸ ha)
  -- The characters up to the first colon are those of `front`, none of which is one.
  obtain ⟨htake, hdrop⟩ := takeWhile_append_cons hall (c := ':') (by decide) rest
  have hc : c ≠ ':' := of_decide_eq_true (hall c List.mem_cons_self)
  rw [List.cons_append, located?, ← List.cons_append, htake, hdrop,
    if_neg (by simp [hc, hblank])]
  rfl

/-- **Without a digit behind its first colon a line names no path.** This is what tells a severity
from a path that is spelled like one: behind the severity stands a blank. -/
theorem located?_of_digits?_eq_none (h : digits? rest = none) :
    located? (front ++ ':' :: rest) = none := by
  rw [located?_front hne hcolon hfirst, h]
  rfl

/-- **A line with a path is read back.** -/
theorem located?_placeChars (line : UInt32) (column? : Option UInt32) (s : Severity)
    (rest : List Char) :
    located? (front ++ ':' :: placeChars line column? (s.name.toList ++ ':' :: rest))
      = some ⟨some ⟨String.ofList front⟩,
          ⟨s, String.ofList (rest.dropWhile isBlank), some line, column?⟩⟩ := by
  rw [located?_front hne hcolon hfirst, digits?_placeChars]
  simp only [Option.bind_eq_bind, Option.bind_some, column_columnChars, dropWhile_isBlank_name,
    message?_name, bind_number?, number?_toDigits_toNat]
  rfl

end Located

end Parts

/-! ## Lines that are read back -/

/-- A diagnostic as a tool writes it, behind the path that it names. -/
def line (d : ParsedDiagnostic) : String :=
  match d.path with
  | some p => p.text ++ ":" ++ d.diagnostic.text
  | none => d.diagnostic.text

/-- What a path may be in front of a line: not empty, with no colon or line feed in it and no
blank at its beginning. -/
def PlainPath (p : Path) : Prop :=
  p.text.toList ≠ [] ∧ ':' ∉ p.text.toList ∧ '\n' ∉ p.text.toList ∧
    p.text.toList.head?.any Text.isBlank = false

instance (p : Path) : Decidable (PlainPath p) :=
  inferInstanceAs (Decidable (_ ∧ _ ∧ _ ∧ _ = _))

/-- What a message may be: a text with no line feed in it and no blank at either end. -/
def PlainMessage (message : String) : Prop :=
  '\n' ∉ message.toList ∧ message.toList.head?.any Text.isBlank = false ∧
    message.toList.getLast?.any Text.isBlank = false

instance (message : String) : Decidable (PlainMessage message) :=
  inferInstanceAs (Decidable (_ ∧ _ = _ ∧ _ = _))

/-- Whether a diagnostic has one of the three forms of a line: with a path and a line, with a
column as well, or with neither. -/
def Plain (d : ParsedDiagnostic) : Prop :=
  PlainMessage d.diagnostic.message ∧
    match d.path, d.diagnostic.line, d.diagnostic.column with
    | some p, some _, _ => PlainPath p
    | none, none, none => True
    | _, _, _ => False

instance : DecidablePred Plain
  | ⟨some p, ⟨_, m, some _, _⟩⟩ => inferInstanceAs (Decidable (PlainMessage m ∧ PlainPath p))
  | ⟨none, ⟨_, m, none, none⟩⟩ => inferInstanceAs (Decidable (PlainMessage m ∧ True))
  | ⟨some _, ⟨_, _, none, _⟩⟩ | ⟨none, ⟨_, _, some _, _⟩⟩ | ⟨none, ⟨_, _, none, some _⟩⟩ =>
    .isFalse (·.2)

/-- The characters of a line that names a path. -/
theorem toList_line_located (p : Path) (s : Severity) (m : String) (line : UInt32)
    (column? : Option UInt32) :
    (ParsedDiagnostic.line ⟨some p, ⟨s, m, some line, column?⟩⟩).toList
      = p.text.toList ++ ':' ::
          placeChars line column? (s.name.toList ++ ':' :: ' ' :: m.toList) := by
  cases column? <;>
    simp [ParsedDiagnostic.line, Diagnostic.text, placeChars, columnChars, toString,
      Nat.toList_repr]

/-- The characters of a line that begins with the severity. -/
theorem toList_line_bare (s : Severity) (m : String) :
    (ParsedDiagnostic.line ⟨none, ⟨s, m, none, none⟩⟩).toList
      = s.name.toList ++ ':' :: ' ' :: m.toList := by
  simp [ParsedDiagnostic.line, Diagnostic.text]

/-- Trimming a line takes at most the blank in front of its message away, if that is empty. -/
theorem exists_trimEndChars {m : String} (hm : PlainMessage m) (front : List Char) :
    ∃ rest, Text.trimEndChars (front ++ ':' :: ' ' :: m.toList) = front ++ ':' :: rest ∧
      String.ofList (rest.dropWhile Text.isBlank) = m ∧ digits? rest = none := by
  obtain ⟨-, hfirst, hlast⟩ := hm
  have hdrop : String.ofList ((' ' :: m.toList).dropWhile Text.isBlank) = m := by
    rw [List.dropWhile_cons_of_pos (by decide), Text.dropWhile_isBlank hfirst, String.ofList_toList]
  by_cases hempty : m.toList = []
  · -- The blank in front of an empty message is trimmed away, the colon before it is not.
    refine ⟨[], ?_, ?_, rfl⟩
    · rw [hempty, List.append_cons, Text.trimEndChars_concat (by decide), Text.trimEndChars_eq]
      rw [List.getLast?_concat]
      rfl
    · rw [← hdrop, hempty]
      rfl
  · refine ⟨' ' :: m.toList, Text.trimEndChars_eq ?_, hdrop, rfl⟩
    rwa [List.append_cons, List.append_cons, List.getLast?_append_of_ne_nil _ hempty]

/-- **A line gives the diagnostic that it was written for.** -/
theorem ofLine?_line {d : ParsedDiagnostic} (h : d.Plain) : ofLine? d.line = some d := by
  obtain ⟨path, s, m, line, column?⟩ := d
  obtain ⟨hm, hform⟩ := h
  -- A line number without a path, or a column without a line, has no form to be written in.
  match path, line, column?, hform with
  | none, none, none, _ =>
    -- The severity could be a path, but a blank or nothing stands behind its colon.
    obtain ⟨rest, htrim, hmessage, hdigits⟩ := exists_trimEndChars hm s.name.toList
    rw [ofLine?, toList_line_bare, htrim,
      located?_of_digits?_eq_none (name_toList_ne_nil s)
      (not_mem_name (.inl rfl) s) (head?_name s) hdigits, Option.none_or, bare?, message?_name,
      hmessage]
    rfl
  | some p, some line, column?, hpath =>
    obtain ⟨hne, hcolon, -, hfirst⟩ := hpath
    -- The trimming leaves the line as it is up to its severity.
    obtain ⟨rest, htrim, hmessage, -⟩ :=
      exists_trimEndChars hm (p.text.toList ++ ':' :: placeChars line column? s.name.toList)
    simp only [List.append_assoc, List.cons_append, ← placeChars_append] at htrim
    rw [ofLine?, toList_line_located, htrim, located?_placeChars hne hcolon hfirst, hmessage,
      String.ofList_toList]
    rfl

/-! ## Texts that are read back

Joining the lines and cutting the text is the identity on lines that have no line feed in them, are
not empty and do not end in a carriage return. All three hold of the line of a plain diagnostic,
since it ends in its message or, if that is empty, in a blank. -/

section Lines

variable {d : ParsedDiagnostic} (h : d.Plain)

include h

/-- **A line ends in its message**, behind a colon and a blank and with no line feed before that. -/
theorem exists_toList_line : ∃ front, '\n' ∉ front ∧
    d.line.toList = front ++ ':' :: ' ' :: d.diagnostic.message.toList := by
  obtain ⟨path, s, m, line, column?⟩ := d
  obtain ⟨-, hform⟩ := h
  have hdigits (n : Nat) : '\n' ∉ Nat.toDigits 10 n := fun hmem =>
    absurd (Text.isDigit_toDigits hmem) (by decide)
  have hname := not_mem_name (.inr rfl) s
  -- A number has digits only, and paths have no line feed by what plain means.
  match path, line, column?, hform with
  | none, none, none, _ => exact ⟨s.name.toList, hname, toList_line_bare s m⟩
  | some p, some line, column?, hpath =>
    have hcolumn : '\n' ∉ columnChars column? := by
      cases column? with
      | none => exact List.not_mem_nil
      | some n => simpa [columnChars] using hdigits n.toNat
    refine ⟨p.text.toList ++ ':' :: placeChars line column? s.name.toList, ?_, ?_⟩
    · simp [placeChars, hpath.2.2.1, hdigits, hcolumn, hname]
    · rw [toList_line_located, placeChars_append, List.append_assoc, List.cons_append]

/-- A line has no line feed in it. -/
theorem not_mem_line : '\n' ∉ d.line.toList := by
  obtain ⟨front, hfront, hline⟩ := exists_toList_line h
  have hmessage := h.1.1
  simp [hline, hfront, hmessage]

/-- A line is not empty, since it has a colon. -/
theorem line_ne_empty : d.line ≠ "" := by
  obtain ⟨front, -, hline⟩ := exists_toList_line h
  intro he
  simp [he] at hline

/-- A line does not end in a carriage return, which is a blank and so not the end of a message. -/
theorem getLast?_line : d.line.toList.getLast? ≠ some '\r' := by
  obtain ⟨front, -, hline⟩ := exists_toList_line h
  rw [hline, List.append_cons, List.append_cons]
  by_cases hempty : d.diagnostic.message.toList = []
  · rw [hempty, List.append_nil, List.getLast?_concat]
    decide
  · rw [List.getLast?_append_of_ne_nil _ hempty]
    intro hcr
    have hlast := h.1.2.2
    rw [hcr] at hlast
    exact absurd hlast (by decide)

end Lines

/-- **What is written one per line is read back**, all of it and in order, whether the lines
are joined by line feeds or by carriage returns and line feeds. -/
theorem ofText_lines (ds : List ParsedDiagnostic) (h : ∀ d ∈ ds, d.Plain) :
    ofText ("\n".intercalate (ds.map line)) = ds ∧
      ofText ("\r\n".intercalate (ds.map line)) = ds := by
  have hread : (ds.map line).filterMap ofLine? = ds := by
    rw [List.filterMap_map]
    exact (List.filterMap_congr fun d hd => ofLine?_line (h d hd)).trans List.filterMap_some
  have hlast : ∀ s ∈ ds.map line, Text.lines s = [s] :=
    List.forall_mem_map.2 fun d hd =>
      Text.lines_last (not_mem_line (h d hd)) (line_ne_empty (h d hd))
  have hlf : ∀ s ∈ ds.map line, ∀ text, Text.lines (s ++ "\n" ++ text) = s :: Text.lines text :=
    List.forall_mem_map.2 fun d hd =>
      Text.lines_lf (not_mem_line (h d hd)) (getLast?_line (h d hd))
  have hcrlf : ∀ s ∈ ds.map line, ∀ text,
      Text.lines (s ++ "\r\n" ++ text) = s :: Text.lines text :=
    List.forall_mem_map.2 fun d hd => Text.lines_crlf (not_mem_line (h d hd))
  unfold ofText
  rw [Text.lines_intercalate hlf hlast, Text.lines_intercalate hcrlf hlast]
  exact ⟨hread, hread⟩

end ParsedDiagnostic

namespace Lookalikes

/-- Diagnostics that could be taken for others: a file that is called like a severity, a
message that begins like a place, and one that is empty. -/
def diagnostics : List ParsedDiagnostic := [
  ⟨some ⟨"error"⟩, ⟨.warning, "3: note: x", some 7, none⟩⟩,
  ⟨none, ⟨.error, "5:6: warning: y", none, none⟩⟩,
  ⟨some ⟨"a b.src"⟩, ⟨.note, "", some 0, some 4294967295⟩⟩]

/-- They are read back for what they are. -/
theorem ofText_lines_diagnostics :
    (∀ d ∈ diagnostics, d.Plain) ∧
      ParsedDiagnostic.ofText ("error:7: warning: 3: note: x\n" ++ "error: 5:6: warning: y\n"
        ++ "a b.src:0:4294967295: note: ") = diagnostics ∧
      ParsedDiagnostic.ofText ("error:7: warning: 3: note: x\r\n" ++ "error: 5:6: warning: y\r\n"
        ++ "a b.src:0:4294967295: note: ") = diagnostics := by
  have hplain : ∀ d ∈ diagnostics, d.Plain := by decide +kernel
  have hread := ParsedDiagnostic.ofText_lines diagnostics hplain
  exact ⟨hplain, hread⟩

end Lookalikes

/-! ## Where a diagnostic is filed

A diagnostic names its file by a path of its own, which may be relative. It goes to the first input,
in the order of the job, that *is* this path or, if the path is relative, *ends with* it. Both tests
are made on one input before the next is looked at, so an input that only ends with the path wins
over a later one that is the path. `Hidden` says when this happens, and the theorem below that
nothing else goes wrong. -/

namespace Job

variable (job : Job)

/-- The inputs that a diagnostic can be filed under, in the order in which they are tried. -/
def inputPaths : List Path := job.primaries ++ job.sourceInputs

/-- The inputs that are tried before the input `p`. -/
def inputsBefore (p : Path) : List Path := job.inputPaths.takeWhile (compare · p ≠ .eq)

/-- Whether an input that only ends with the path `p` is tried before the input `p`. -/
def Hidden (p : Path) : Prop :=
  p.isRelative = true ∧ ∃ other ∈ job.inputsBefore p, other.endsWith p = true

instance (p : Path) : Decidable (job.Hidden p) :=
  inferInstanceAs (Decidable (_ ∧ ∃ other ∈ _, _))

variable {job} {p q : Path}

/-- An input that is tried before `p` is another path. -/
theorem compare_ne_of_mem_inputsBefore (h : q ∈ job.inputsBefore p) : compare q p ≠ .eq :=
  of_decide_eq_true (List.mem_takeWhile_imp (p := fun q => compare q p ≠ .eq) h)

/-- The first input that is the path `p` stands behind those that are tried before it. -/
theorem exists_inputPaths_eq (h : ∃ q ∈ job.inputPaths, compare q p = .eq) :
    ∃ first after, job.inputPaths = job.inputsBefore p ++ first :: after ∧
      compare first p = .eq := by
  have hsplit : job.inputPaths
      = job.inputsBefore p ++ job.inputPaths.dropWhile (compare · p ≠ .eq) :=
    List.takeWhile_append_dropWhile.symm
  have hhead := List.head?_dropWhile_not (compare · p ≠ .eq) job.inputPaths
  -- The rest begins with the first input that is `p`. It is not empty, for one input is.
  cases hrest : job.inputPaths.dropWhile (compare · p ≠ .eq) with
  | nil =>
    obtain ⟨q, hq, heq⟩ := h
    exact absurd heq (of_decide_eq_true (List.dropWhile_eq_nil_iff.1 hrest q hq))
  | cons first after =>
    rw [hrest] at hsplit hhead
    exact ⟨first, after, hsplit, by simpa using hhead⟩

/-- **A path that names an input finds it**, if no input that only ends with it comes first. -/
theorem namedInput?_of_not_hidden (hnamed : ∃ q ∈ job.inputPaths, compare q p = .eq)
    (h : ¬ job.Hidden p) :
    ∃ q ∈ job.inputPaths, compare q p = .eq ∧ job.namedInput? p = some q := by
  obtain ⟨first, after, hsplit, hfirst⟩ := exists_inputPaths_eq hnamed
  refine ⟨first, hsplit ▸ List.mem_append_right _ List.mem_cons_self, hfirst, ?_⟩
  rw [namedInput?, ← inputPaths, hsplit, List.find?_append, List.find?_eq_none.2, Option.none_or]
  · exact List.find?_cons_of_pos (by rw [Path.beq_iff_compare.2 hfirst, Bool.true_or])
  -- Nothing before `first` fits: it is another path, and to end with `p` would hide it.
  · intro other hother hfits
    rcases Bool.or_eq_true_iff.1 hfits with heq | hends
    · exact compare_ne_of_mem_inputsBefore hother (Path.beq_iff_compare.1 heq)
    · rw [Bool.and_eq_true] at hends
      exact h ⟨hends.1, other, hother, hends.2⟩

/-- **A hidden path finds another input**, one that is tried before it. -/
theorem namedInput?_of_hidden (hnamed : ∃ q ∈ job.inputPaths, compare q p = .eq)
    (h : job.Hidden p) : ∃ other ∈ job.inputsBefore p, job.namedInput? p = some other := by
  obtain ⟨first, after, hsplit, -⟩ := exists_inputPaths_eq hnamed
  obtain ⟨hrelative, other, hother, hends⟩ := h
  -- The search succeeds among the inputs before `p` already, on `other` at the latest.
  have hsome : ((job.inputsBefore p).find? fun candidate =>
      candidate == p || (p.isRelative && candidate.endsWith p)).isSome :=
    List.find?_isSome.2 ⟨other, hother, by rw [hrelative, hends, Bool.true_and, Bool.or_true]⟩
  obtain ⟨found, hfound⟩ := Option.isSome_iff_exists.1 hsome
  refine ⟨found, List.mem_of_find?_eq_some hfound, ?_⟩
  rw [namedInput?, ← inputPaths, hsplit, List.find?_append, hfound, Option.some_or]

/-- An input that was found is what the diagnostic is filed under. -/
theorem originOf_of_namedInput? (h : job.namedInput? p = some q) :
    job.originOf (some p) = .input q := by
  rw [originOf, Option.bind_some, h]

/-- **A diagnostic is filed under an input or under the job**, whatever it names. -/
theorem originOf_input_or_job (job : Job) (p : Option Path) :
    (∃ q ∈ job.inputPaths, job.originOf p = .input q) ∨ job.originOf p = .job job.key := by
  unfold originOf
  split
  · next found hfound =>
    obtain ⟨named, -, hfound⟩ := Option.bind_eq_some_iff.1 hfound
    exact .inl ⟨found, List.mem_of_find?_eq_some hfound, rfl⟩
  -- Nothing was found. With one input it goes there, with several or none to the job.
  · split
    · next only hprimaries =>
      refine .inl ⟨only, List.mem_append_left _ ?_, rfl⟩
      rw [hprimaries]
      exact List.mem_singleton_self only
    · exact .inr rfl

/-- **Diagnostics reach the file they name**, exactly if no input that only ends with its path
is tried before it; and one that names no input goes to an input or to the job. -/
theorem originOf_exact (job : Job) :
    (∀ p : Path, (∃ q ∈ job.inputPaths, compare q p = .eq) →
      ((∃ q ∈ job.inputPaths, compare q p = .eq ∧ job.originOf (some p) = .input q) ↔
        ¬ job.Hidden p)) ∧
      ∀ p : Option Path, (∃ q ∈ job.inputPaths, job.originOf p = .input q) ∨
        job.originOf p = .job job.key := by
  refine ⟨fun p hnamed => ⟨?_, fun h => ?_⟩, job.originOf_input_or_job⟩
  -- If `p` were hidden, another input would have been found, and one that is not `p`.
  · rintro ⟨q, -, heq, horigin⟩ h
    obtain ⟨other, hother, hfound⟩ := namedInput?_of_hidden hnamed h
    rw [originOf_of_namedInput? hfound] at horigin
    obtain rfl := DiagnosticOrigin.input.inj horigin
    exact compare_ne_of_mem_inputsBefore hother heq
  · obtain ⟨q, hq, heq, hfound⟩ := namedInput?_of_not_hidden hnamed h
    exact ⟨q, hq, heq, originOf_of_namedInput? hfound⟩

end Job

namespace SharedEnding

/-- A batch whose first input ends with the path of its second. -/
def batch : Job where
  id := 0
  key := JobKey.batch ⟨"lib/a.src"⟩ ⟨"a.src"⟩
  kind := .compile [
    ⟨⟨"lib/a.src"⟩, [], none, JobKey.compile ⟨"lib/a.src"⟩⟩,
    ⟨⟨"a.src"⟩, [], none, JobKey.compile ⟨"a.src"⟩⟩] false
  inputs := [⟨⟨"lib/a.src"⟩, .source⟩, ⟨⟨"a.src"⟩, .source⟩]
  outputs := []
  command := ⟨"compiler", []⟩
  prerequisites := .empty

/-- The input that comes first is reached under its own path, the other one is hidden. -/
theorem originOf_exact_batch :
    (¬ batch.Hidden ⟨"lib/a.src"⟩ ∧ ∃ q ∈ batch.inputPaths, compare q ⟨"lib/a.src"⟩ = .eq ∧
      batch.originOf (some ⟨"lib/a.src"⟩) = .input q) ∧
    (batch.Hidden ⟨"a.src"⟩ ∧ ¬ ∃ q ∈ batch.inputPaths, compare q ⟨"a.src"⟩ = .eq ∧
      batch.originOf (some ⟨"a.src"⟩) = .input q) := by
  have hfirst : ¬ batch.Hidden ⟨"lib/a.src"⟩ := by decide +kernel
  have hsecond : batch.Hidden ⟨"a.src"⟩ := by decide +kernel
  refine ⟨⟨hfirst, (batch.originOf_exact.1 _ ?_).2 hfirst⟩, hsecond,
    fun h => (batch.originOf_exact.1 _ ?_).1 h hsecond⟩
  · decide +kernel
  · decide +kernel

/-- A diagnostic that names an input is filed under another one. -/
theorem exists_originOf_other :
    ∃ (job : Job) (p other : Path), p ∈ job.primaries ∧ compare other p ≠ .eq ∧
      job.originOf (some p) = .input other :=
  ⟨batch, ⟨"a.src"⟩, ⟨"lib/a.src"⟩, List.mem_cons_of_mem _ List.mem_cons_self, by decide +kernel,
    Job.originOf_of_namedInput? (List.find?_cons_of_pos (by decide +kernel))⟩

end SharedEnding

end IncrementalBuild
