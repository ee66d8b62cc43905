import IncrementalBuild.Proofs.Json

/-!
# A text that is cut off

A reader that finds a value and stops finds the same value when more characters stand behind,
and stops at the same place: it looks at no more than one character behind what it takes, and
only behind a number at one. So what it reads in the first part of a text it would read in the
whole text too. A text that holds one object up to its end therefore has no shorter first part
that holds a value: the reader would have stopped at the end of that part in the whole text as
well, and what is left there is nothing.

The induction is on the fuel of the four readers together. A number is the one thing whose
reading depends on what follows; inside a list or an object something always follows it, the
closing mark at the latest, and at the outermost level an object is no number.
-/

namespace IncrementalBuild.Json

/-- **Whether a reader stops by itself**: where it leaves characters, it leaves them and all that
stands behind them, and takes the same. -/
def StopsAhead {α : Type} (read : List Char → Option (α × List Char)) : Prop :=
  ∀ {cs rest : List Char} {a : α}, read cs = some (a, rest) → rest ≠ [] →
    ∀ more, read (cs ++ more) = some (a, rest ++ more)

/-- **Whether a reader knows its end**: it never looks behind what it takes. -/
def StopsAtEnd {α : Type} (read : List Char → Option (α × List Char)) : Prop :=
  ∀ {cs rest : List Char} {a : α}, read cs = some (a, rest) →
    ∀ more, read (cs ++ more) = some (a, rest ++ more)

/-- Blanks are skipped as before. A character has to stand behind them: blanks at the very end would
go on in what follows. -/
theorem skipSpaces_append {c : Char} {cs rest : List Char} (h : skipSpaces cs = c :: rest)
    (more : List Char) : skipSpaces (cs ++ more) = c :: (rest ++ more) := by
  unfold skipSpaces at h ⊢
  rw [List.dropWhile_append, h]
  rfl

/-! ## Strings

A string knows its end: the mark that closes it is taken with it. The cases are those of the reader,
and in each the characters behind are carried along to the rest. -/

/-- The pieces of a string end with the mark that closes it. -/
theorem stopsAtEnd_readPieces : StopsAtEnd readPieces := by
  intro cs
  fun_induction readPieces cs with
  | case1 rest =>
    intro rest' a h more
    cases h
    rfl
  -- Four hexadecimal digits behind `\u`.
  | case2 a b c d rest ih =>
    intro rest' pieces h more
    obtain ⟨n, hn, h⟩ := Option.bind_eq_some_iff.1 h
    obtain ⟨found, hfound, h⟩ := Option.bind_eq_some_iff.1 h
    cases h
    show readPieces ('\\' :: 'u' :: a :: b :: c :: d :: (rest ++ more)) = _
    rw [readPieces, hn, ih hfound more]
    rfl
  -- Any other escape. The reader has tried `\u` before, so it has to be seen that `c` is no `u`.
  | case3 c rest _ ih =>
    intro rest' pieces h more
    obtain ⟨e, he, h⟩ := Option.bind_eq_some_iff.1 h
    obtain ⟨found, hfound, h⟩ := Option.bind_eq_some_iff.1 h
    cases h
    have hc : c ≠ 'u' := by
      rintro rfl
      cases he
    show readPieces ('\\' :: c :: (rest ++ more)) = _
    rw [readPieces.eq_3 _ _ fun _ _ _ _ _ h _ => hc h, he, ih hfound more]
    rfl
  | case4 =>
    intro rest' pieces h
    cases h
  -- A character that stands for itself: it closes nothing and begins no escape.
  | case5 c rest hquote _ _ hplain ih =>
    intro rest' pieces h more
    obtain ⟨found, hfound, h⟩ := Option.bind_eq_some_iff.1 h
    cases h
    have hslash : c ≠ '\\' := by
      rintro rfl
      exact hplain rfl
    show readPieces (c :: (rest ++ more)) = _
    rw [readPieces.eq_4 _ _ hquote (fun _ _ _ _ _ h _ => hslash h) fun _ _ h _ => hslash h,
      if_neg hplain, ih hfound more]
    rfl
  | case6 =>
    intro rest' pieces h
    cases h

/-- A string ends with the mark that closes it. -/
theorem stopsAtEnd_readString : StopsAtEnd readString := by
  intro cs rest text h more
  obtain ⟨found, hfound, h⟩ := Option.map_eq_some_iff.1 h
  cases h
  unfold readString
  rw [stopsAtEnd_readPieces hfound more]
  rfl

/-- A word is taken up to its last character, whatever follows. -/
theorem expect_append {word cs rest : List Char} (h : expect word cs = some rest)
    (more : List Char) : expect word (cs ++ more) = some (rest ++ more) := by
  unfold expect at h ⊢
  split at h
  · rename_i hword
    obtain ⟨tail, rfl⟩ := List.isPrefixOf_iff_prefix.1 hword
    cases h
    simp
  · cases h

/-! ## Numbers

A number does not know its end: its last digit is the last because no digit follows. So its readers
are only shown to stop where they leave something. The first character that is left is what they
have stopped at, and it is still there when more follows. -/

/-- Digits end where a character stands that is none. -/
theorem stopsAhead_readDigits : StopsAhead readDigits := by
  intro cs rest digits h hrest more
  obtain ⟨hdrop, htake⟩ : cs.dropWhile Char.isDigit = rest
      ∧ (cs ++ more).takeWhile Char.isDigit = cs.takeWhile Char.isDigit := by
    have hdrop : cs.dropWhile Char.isDigit = rest := by
      unfold readDigits at h
      split at h
      · cases h
      · exact (Prod.mk.inj (Option.some.inj h)).2
    refine ⟨hdrop, ?_⟩
    -- If all of `cs` were digits, nothing would be left.
    rw [List.takeWhile_append, if_neg]
    intro hall
    have hlength := congrArg List.length
      (List.takeWhile_append_dropWhile (p := Char.isDigit) (l := cs))
    rw [List.length_append, hdrop, hall] at hlength
    exact hrest (List.eq_nil_of_length_eq_zero (by omega))
  unfold readDigits at h ⊢
  rw [htake, List.dropWhile_append, hdrop, if_neg (by simpa using hrest)]
  split at h
  · cases h
  · cases h
    rfl

/-- A whole part is over where a character stands that is no digit. -/
theorem stopsAhead_readWhole : StopsAhead readWhole := by
  intro cs rest whole h hrest more
  unfold readWhole at h
  split at h
  -- A zero is the whole part by itself, and a digit behind it makes it none.
  · rename_i after
    cases after with
    | nil =>
      cases h
      exact absurd rfl hrest
    | cons c after =>
      split at h
      · cases h
      · rename_i hdigit
        cases h
        show (if (some c.isDigit).getD false = true then none else _) = _
        exact if_neg hdigit
  · rename_i hzero
    have hdigits := stopsAhead_readDigits h hrest more
    unfold readWhole
    split
    · rename_i after hcs
      cases cs with
      | nil => cases h
      | cons c after =>
        obtain ⟨rfl, -⟩ := List.cons.inj hcs
        exact absurd rfl (hzero after)
    · exact hdigits

/-- A fraction is over where a character stands that is no digit. If there is none, the next
character is no point. -/
theorem stopsAhead_readFraction : StopsAhead readFraction := by
  intro cs rest fraction h hrest more
  unfold readFraction at h
  split at h
  · obtain ⟨found, hfound, h⟩ := Option.map_eq_some_iff.1 h
    cases h
    show (readDigits (_ ++ more)).map _ = _
    rw [stopsAhead_readDigits hfound hrest more]
    rfl
  -- There is no fraction, since the first character is no point; it stays the first.
  · rename_i hpoint
    cases h
    cases cs with
    | nil => exact absurd rfl hrest
    | cons c after =>
      show readFraction (c :: (after ++ more)) = _
      unfold readFraction
      split
      · rename_i heq
        exact (hpoint after (by rw [(List.cons.inj heq).1])).elim
      · rfl

/-- An exponent is over where a character stands that is no digit. If there is none, the next
character is no `e`. -/
theorem stopsAhead_readExponent : StopsAhead readExponent := by
  intro cs rest exponent h hrest more
  cases cs with
  | nil =>
    cases h
    exact absurd rfl hrest
  | cons e after =>
    show readExponent (e :: (after ++ more)) = _
    unfold readExponent at h ⊢
    dsimp only at h ⊢
    split at h
    · rename_i he
      rw [if_pos he]
      -- A sign may stand in front of the digits, and digits are needed in any case.
      cases after with
      | nil => cases h
      | cons c after =>
        dsimp only [List.cons_append] at h ⊢
        split at h
        · rename_i hsign
          obtain ⟨found, hfound, h⟩ := Option.map_eq_some_iff.1 h
          cases h
          rw [if_pos hsign, stopsAhead_readDigits hfound hrest more]
          rfl
        · rename_i hsign
          obtain ⟨found, hfound, h⟩ := Option.map_eq_some_iff.1 h
          cases h
          rw [if_neg hsign]
          have := stopsAhead_readDigits hfound hrest more
          rw [List.cons_append] at this
          rw [this]
          rfl
    · rename_i he
      cases h
      rw [if_neg he]
      rfl

/-- A number behind its sign. -/
def readUnsigned (sign cs : List Char) : Option (String × List Char) := do
  let (whole, cs) ← readWhole cs
  let (fraction, cs) ← readFraction cs
  let (exponent, cs) ← readExponent cs
  return (String.ofList (sign ++ whole ++ fraction ++ exponent), cs)

/-- Without a minus in front a number has no sign. -/
theorem readNumber_of_ne_minus {c : Char} (h : c ≠ '-') (cs : List Char) :
    readNumber (c :: cs) = readUnsigned [] (c :: cs) := by
  unfold readNumber
  split
  rename_i heq
  split at heq
  · rename_i hcons
    exact absurd (List.cons.inj hcons).1 h
  · cases heq
    rfl

/-- The parts of a number are read one after the other, and each stops by itself. -/
theorem stopsAhead_readUnsigned (sign : List Char) : StopsAhead (readUnsigned sign) := by
  intro cs rest number h hrest more
  obtain ⟨⟨whole, afterWhole⟩, hwhole, h⟩ := Option.bind_eq_some_iff.1 h
  obtain ⟨⟨fraction, afterFraction⟩, hfraction, h⟩ := Option.bind_eq_some_iff.1 h
  obtain ⟨⟨exponent, afterExponent⟩, hexponent, h⟩ := Option.bind_eq_some_iff.1 h
  cases h
  -- Nothing is left behind a part with which the text ends.
  have hbeforeExponent : afterFraction ≠ [] := by
    rintro rfl
    cases hexponent
    exact hrest rfl
  have hbeforeFraction : afterWhole ≠ [] := by
    rintro rfl
    cases hfraction
    exact hbeforeExponent rfl
  unfold readUnsigned
  rw [stopsAhead_readWhole hwhole hbeforeFraction more]
  show (readFraction (afterWhole ++ more)).bind _ = _
  rw [stopsAhead_readFraction hfraction hbeforeExponent more]
  show (readExponent (afterFraction ++ more)).bind _ = _
  rw [stopsAhead_readExponent hexponent hrest more]
  rfl

/-- **A number is over where a character stands with which it does not go on.** -/
theorem stopsAhead_readNumber : StopsAhead readNumber := by
  intro cs rest number h hrest more
  cases cs with
  | nil => cases h
  | cons c after =>
    by_cases hc : c = '-'
    · subst hc
      exact stopsAhead_readUnsigned ['-'] h hrest more
    · rw [readNumber_of_ne_minus hc] at h
      show readNumber (c :: (after ++ more)) = _
      rw [readNumber_of_ne_minus hc]
      exact stopsAhead_readUnsigned [] h hrest more

/-! ## Values

The four readers call each other, for values, for the items of a list, for a field and for the
fields of an object. What is shown of them is one statement by induction on their fuel. More fuel is
allowed than the first part was read with, since the whole text is read with more. For a value there
is a condition, that it is *closed*, because it might be a number at the end of the text. Inside a
list or an object it holds by itself: the reader of the items or fields goes on there, and it finds
nothing in the empty text. -/

/-- No value stands in the empty text. -/
@[simp] theorem readValue_nil (fuel : Nat) : readValue fuel [] = none := by
  cases fuel <;> rfl

/-- The items of a list are not over with the text. -/
@[simp] theorem readItems_nil (fuel : Nat) : readItems fuel [] = none := by
  cases fuel <;> rfl

/-- No field stands in the empty text. -/
@[simp] theorem readField_nil (fuel : Nat) : readField fuel [] = none := by
  cases fuel <;> rfl

/-- The fields of an object are not over with the text. -/
@[simp] theorem readFields_nil (fuel : Nat) : readFields fuel [] = none := by
  cases fuel <;> rfl

/-- What finds something has been given a character. -/
theorem exists_cons_of_read {α : Type} {read : List Char → Option α} (hnil : read [] = none)
    {cs : List Char} {found : α} (h : read cs = some found) : ∃ c tail, cs = c :: tail := by
  cases cs with
  | nil =>
    rw [hnil] at h
    cases h
  | cons c tail => exact ⟨c, tail, rfl⟩

/-- What finds something has not been given the empty text. -/
theorem ne_nil_of_read {α : Type} {read : List Char → Option α} (hnil : read [] = none)
    {cs : List Char} {found : α} (h : read cs = some found) : cs ≠ [] := by
  obtain ⟨c, tail, rfl⟩ := exists_cons_of_read hnil h
  exact List.cons_ne_nil c tail

/-- What no mark and no word begins is read as a number. -/
theorem readValue_plain {fuel : Nat} {cs tail : List Char} {c : Char}
    (hskip : skipSpaces cs = c :: tail) (hc : c ∉ ['"', '[', '\x7b', 'n', 't', 'f']) :
    readValue (fuel + 1) cs =
      (readNumber (c :: tail)).map fun (literal, rest) => (.number literal, rest) := by
  rw [readValue.eq_def]
  simp only [hskip]
  split
  case h_7 => rfl
  -- The other cases are those of the six characters, which `c` is not.
  all_goals
    rename_i heq
    exact absurd (by rw [(List.cons.inj heq).1]; decide) hc

/-- Whether what was read is over, whatever may follow: it is no number, or something follows. -/
def Closed (v : Value) (rest : List Char) : Prop := rest ≠ [] ∨ ∀ literal, v ≠ .number literal

/-- **Whether the readers of so much fuel read on as they began** with more characters behind the
ones they were given, and with more fuel. -/
structure ReadsOn (fuel : Nat) : Prop where
  /-- A closed value is found again. -/
  value {cs rest : List Char} {v : Value} (h : readValue fuel cs = some (v, rest))
    (hclosed : Closed v rest) {fuel' : Nat} (hle : fuel ≤ fuel') (more : List Char) :
    readValue fuel' (cs ++ more) = some (v, rest ++ more)
  /-- Items are found again up to the bracket that closes the list. -/
  items {cs rest : List Char} {items : List Value} (h : readItems fuel cs = some (items, rest))
    {fuel' : Nat} (hle : fuel ≤ fuel') (more : List Char) :
    readItems fuel' (cs ++ more) = some (items, rest ++ more)
  /-- A field is found again if its value is closed. -/
  field {cs rest : List Char} {f : Text? × Value} (h : readField fuel cs = some (f, rest))
    (hclosed : Closed f.2 rest) {fuel' : Nat} (hle : fuel ≤ fuel') (more : List Char) :
    readField fuel' (cs ++ more) = some (f, rest ++ more)
  /-- Fields are found again up to the brace that closes the object. -/
  fields {cs rest : List Char} {fields : List (Text? × Value)}
    (h : readFields fuel cs = some (fields, rest)) {fuel' : Nat} (hle : fuel ≤ fuel')
    (more : List Char) : readFields fuel' (cs ++ more) = some (fields, rest ++ more)

/-- Items with one more unit of fuel: a value behind the comma, closed by the items behind it. -/
theorem ReadsOn.items_succ {fuel : Nat} (ih : ReadsOn fuel) {cs rest : List Char}
    {items : List Value} (h : readItems (fuel + 1) cs = some (items, rest)) {fuel' : Nat}
    (hle : fuel ≤ fuel') (more : List Char) :
    readItems (fuel' + 1) (cs ++ more) = some (items, rest ++ more) := by
  unfold readItems at h
  split at h
  · rename_i hskip
    cases h
    exact readItems_close (skipSpaces_append hskip more)
  · rename_i hskip
    obtain ⟨⟨v, afterValue⟩, hv, h⟩ := Option.bind_eq_some_iff.1 h
    obtain ⟨⟨others, afterItems⟩, hitems, h⟩ := Option.bind_eq_some_iff.1 h
    cases h
    exact readItems_comma (skipSpaces_append hskip more)
      (ih.value hv (.inl (ne_nil_of_read (readItems_nil fuel) hitems)) hle more)
      (ih.items hitems hle more)
  · cases h

/-- A field with one more unit of fuel: a name, which knows its end, a colon, and a value. -/
theorem ReadsOn.field_succ {fuel : Nat} (ih : ReadsOn fuel) {cs rest : List Char}
    {f : Text? × Value} (h : readField (fuel + 1) cs = some (f, rest)) (hclosed : Closed f.2 rest)
    {fuel' : Nat} (hle : fuel ≤ fuel') (more : List Char) :
    readField (fuel' + 1) (cs ++ more) = some (f, rest ++ more) := by
  unfold readField at h
  split at h
  · rename_i hskip
    obtain ⟨⟨name, afterName⟩, hname, h⟩ := Option.bind_eq_some_iff.1 h
    dsimp only at h
    split at h
    · rename_i hcolon
      obtain ⟨⟨v, afterValue⟩, hv, h⟩ := Option.bind_eq_some_iff.1 h
      cases h
      exact readField_name (skipSpaces_append hskip more) (stopsAtEnd_readString hname more)
        (skipSpaces_append hcolon more) (ih.value hv hclosed hle more)
    · cases h
  · cases h

/-- Fields with one more unit of fuel: a field behind the comma, closed by the fields behind it. -/
theorem ReadsOn.fields_succ {fuel : Nat} (ih : ReadsOn fuel) {cs rest : List Char}
    {fields : List (Text? × Value)} (h : readFields (fuel + 1) cs = some (fields, rest))
    {fuel' : Nat} (hle : fuel ≤ fuel') (more : List Char) :
    readFields (fuel' + 1) (cs ++ more) = some (fields, rest ++ more) := by
  unfold readFields at h
  split at h
  · rename_i hskip
    cases h
    exact readFields_close (skipSpaces_append hskip more)
  · rename_i hskip
    obtain ⟨⟨f, afterField⟩, hf, h⟩ := Option.bind_eq_some_iff.1 h
    obtain ⟨⟨others, afterFields⟩, hfields, h⟩ := Option.bind_eq_some_iff.1 h
    cases h
    exact readFields_comma (skipSpaces_append hskip more)
      (ih.field hf (.inl (ne_nil_of_read (readFields_nil fuel) hfields)) hle more)
      (ih.fields hfields hle more)
  · cases h

/-- **A value with one more unit of fuel.** The cases are what a value begins with: a string, a
list, an object, one of the three words, or anything else, which has to be a number. -/
theorem ReadsOn.value_succ {fuel : Nat} (ih : ReadsOn fuel) {cs rest : List Char}
    {v : Value} (h : readValue (fuel + 1) cs = some (v, rest)) (hclosed : Closed v rest)
    {fuel' : Nat} (hle : fuel ≤ fuel') (more : List Char) :
    readValue (fuel' + 1) (cs ++ more) = some (v, rest ++ more) := by
  unfold readValue at h
  split at h
  case h_1 hskip =>
    obtain ⟨found, hfound, h⟩ := Option.map_eq_some_iff.1 h
    cases h
    exact readValue_string (skipSpaces_append hskip more) (stopsAtEnd_readString hfound more)
  case h_2 after hskip =>
    split at h
    -- An empty list: the bracket that closes it stands behind blanks.
    · rename_i hclose
      cases h
      rw [readValue.eq_def]
      simp only [skipSpaces_append hskip more, skipSpaces_append hclose more]
    · rename_i hopen
      obtain ⟨⟨w, afterValue⟩, hw, h⟩ := Option.bind_eq_some_iff.1 h
      obtain ⟨⟨others, afterItems⟩, hitems, h⟩ := Option.bind_eq_some_iff.1 h
      cases h
      -- The first item does not close the list, in the whole text no more than in its first
      -- part.
      obtain ⟨c, tail, hc⟩ := exists_cons_of_read (readValue_nil fuel) hw
      have hmore := ih.value hw (.inl (ne_nil_of_read (readItems_nil fuel) hitems)) hle more
      rw [hc] at hmore
      refine readValue_array (skipSpaces_append hskip more) ⟨_, skipSpaces_append hc more⟩
        (fun he => hopen tail (he ▸ hc)) ?_ (ih.items hitems hle more)
      rw [skipSpaces_append hc more]
      exact hmore
  case h_3 after hskip =>
    split at h
    · rename_i hclose
      cases h
      rw [readValue.eq_def]
      simp only [skipSpaces_append hskip more, skipSpaces_append hclose more]
    · rename_i hopen
      obtain ⟨⟨f, afterField⟩, hf, h⟩ := Option.bind_eq_some_iff.1 h
      obtain ⟨⟨others, afterFields⟩, hfields, h⟩ := Option.bind_eq_some_iff.1 h
      cases h
      -- The first field does not close the object, in the whole text no more than in its first
      -- part.
      obtain ⟨c, tail, hc⟩ := exists_cons_of_read (readField_nil fuel) hf
      have hmore := ih.field hf (.inl (ne_nil_of_read (readFields_nil fuel) hfields)) hle more
      rw [hc] at hmore
      refine readValue_object (skipSpaces_append hskip more) ⟨_, skipSpaces_append hc more⟩
        (fun he => hopen tail (he ▸ hc)) ?_ (ih.fields hfields hle more)
      rw [skipSpaces_append hc more]
      exact hmore
  -- The words `null`, `true` and `false`.
  case h_4 hskip | h_5 hskip | h_6 hskip =>
    obtain ⟨found, hfound, h⟩ := Option.map_eq_some_iff.1 h
    cases h
    rw [readValue.eq_def]
    simp only [skipSpaces_append hskip more, expect_append hfound more, Option.map_some]
  case h_7 hquote hbracket hbrace hn ht hf =>
    obtain ⟨⟨literal, left⟩, hfound, h⟩ := Option.map_eq_some_iff.1 h
    cases h
    -- A number. Something is left behind it, since it would not be closed otherwise.
    obtain ⟨c, tail, hc⟩ := exists_cons_of_read (rfl : readNumber [] = none) hfound
    have hleft : rest ≠ [] := hclosed.resolve_right fun hno => hno literal rfl
    have hmore := stopsAhead_readNumber hfound hleft more
    rw [hc] at hmore hquote hbracket hbrace hn ht hf
    have hplain : c ∉ ['"', '[', '\x7b', 'n', 't', 'f'] := by
      simp only [List.mem_cons, List.not_mem_nil, or_false, not_or]
      refine ⟨?_, ?_, ?_, ?_, ?_, ?_⟩ <;> rintro rfl
      exacts [hquote tail rfl, hbracket tail rfl, hbrace tail rfl, hn tail rfl, ht tail rfl,
        hf tail rfl]
    rw [readValue_plain (skipSpaces_append hc more) hplain, ← List.cons_append, hmore]
    rfl

/-- **The readers read on as they began.** -/
theorem readsOn (fuel : Nat) : ReadsOn fuel := by
  induction fuel with
  | zero =>
    -- Without fuel nothing is read.
    constructor <;> (intros; contradiction)
  | succ fuel ih =>
    -- More fuel than some is a successor too.
    have hsucc {fuel' : Nat} (hle : fuel + 1 ≤ fuel') : ∃ n, fuel' = n + 1 ∧ fuel ≤ n :=
      ⟨fuel' - 1, by omega, by omega⟩
    constructor
    case value =>
      intro cs rest v h hclosed fuel' hle more
      obtain ⟨n, rfl, hn⟩ := hsucc hle
      exact ih.value_succ h hclosed hn more
    case items =>
      intro cs rest items h fuel' hle more
      obtain ⟨n, rfl, hn⟩ := hsucc hle
      exact ih.items_succ h hn more
    case field =>
      intro cs rest f h hclosed fuel' hle more
      obtain ⟨n, rfl, hn⟩ := hsucc hle
      exact ih.field_succ h hclosed hn more
    case fields =>
      intro cs rest fields h fuel' hle more
      obtain ⟨n, rfl, hn⟩ := hsucc hle
      exact ih.fields_succ h hn more

/-! ## Texts that are cut off

What is saved is one object, so a first part of it begins with a brace, or it is empty. If a value
were read in it, the value would be an object, hence closed, and would be read in the whole text
too, with the characters that were cut off left over. But the whole text leaves nothing. -/

/-- What begins with a brace is read as an object. -/
theorem exists_object_of_readValue {fuel : Nat} {cs tail rest : List Char} {v : Value}
    (hskip : skipSpaces cs = '\x7b' :: tail) (h : readValue fuel cs = some (v, rest)) :
    ∃ fields, v = .object fields := by
  cases fuel with
  | zero => cases h
  | succ fuel =>
    rw [readValue.eq_def] at h
    simp only [hskip] at h
    split at h
    · cases h
      exact ⟨_, rfl⟩
    · obtain ⟨⟨f, afterField⟩, hf, h⟩ := Option.bind_eq_some_iff.1 h
      obtain ⟨⟨others, afterFields⟩, hfields, h⟩ := Option.bind_eq_some_iff.1 h
      cases h
      exact ⟨_, rfl⟩

/-- What is printed for an object begins with a brace. -/
theorem exists_toList_printAt_object (level : Nat) (fields : List (Text? × Value)) :
    ∃ more, ((Value.object fields).printAt level).toList = '\x7b' :: more := by
  cases fields with
  | nil => exact ⟨['\x7d'], by simp [Value.printAt]⟩
  | cons f rest =>
    obtain ⟨name, v⟩ := f
    rw [Value.printAt]
    simp only [String.toList_append, List.append_assoc]
    exact ⟨_, rfl⟩

/-- **What an object is printed as holds no value when it is cut off.** -/
theorem Value.read?_eq_none_of_cut {fields : List (Text? × Value)}
    (hreadable : (Value.object fields).Readable) {s t : String} (ht : t ≠ "")
    (hcut : s ++ t = (Value.object fields).print) : Value.read? s = none := by
  have hlist : s.toList ++ t.toList = ((Value.object fields).printAt 0).toList := by
    rw [← String.toList_append, hcut]
    rfl
  unfold Value.read?
  dsimp only
  split
  case h_2 => rfl
  case h_1 v rest hread =>
    obtain ⟨c, tail, hs⟩ := exists_cons_of_read (readValue_nil _) hread
    obtain ⟨more, hopens⟩ := exists_toList_printAt_object 0 fields
    obtain rfl : c = '\x7b' := by
      rw [hs, hopens] at hlist
      exact (List.cons.inj hlist).1
    have hskip : skipSpaces s.toList = '\x7b' :: tail := by
      rw [hs]
      exact skipSpaces_cons rfl tail
    obtain ⟨found, rfl⟩ := exists_object_of_readValue hskip hread
    -- In the whole text the reader would stop in front of the characters cut off.
    have hfuel : 2 * s.toList.length + 2 ≤ 2 * (s.toList ++ t.toList).length + 2 := by
      rw [List.length_append]
      omega
    have hlong := (readsOn _).value hread (.inr fun _ h => nomatch h) hfuel t.toList
    -- The printed object is read to its end.
    have hwhole := (hreadable.readBack 0).2 (2 * (s.toList ++ t.toList).length + 2) [] (.inl rfl)
      (by rw [hlist]; omega)
    rw [List.append_nil, ← hlist, hlong] at hwhole
    have hnil : rest ++ t.toList = [] := (Prod.mk.inj (Option.some.inj hwhole)).2
    exact absurd (String.toList_eq_nil_iff.1 (List.append_eq_nil_iff.1 hnil).2) ht

end IncrementalBuild.Json
