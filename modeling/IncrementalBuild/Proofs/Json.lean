import IncrementalBuild.Json.Shape
import Mathlib.Data.List.Basic

/-!
# What is printed is read again

Reading what a value is printed as gives the value back, for every value whose strings have
a text and whose numbers read back. The induction is on the value; what it says of a part
is said for whatever characters stand behind the part, as long as a number could not go on
there.
-/

namespace IncrementalBuild

/-! ## Digits -/

namespace Text

/-- A decimal digit has the value of its place behind the zero. -/
theorem digitValue?_of_isDigit {c : Char} (h : c.isDigit = true) :
    digitValue? c = some (c.toNat - '0'.toNat) := by
  unfold digitValue?
  rw [if_pos]
  exact (Bool.and_eq_true_iff.1 h).imp of_decide_eq_true of_decide_eq_true

/-- Decimal digits are digits of the base ten. -/
theorem isDigitOf_ten {c : Char} (h : c.isDigit = true) : isDigitOf 10 c = true := by
  unfold isDigitOf
  rw [digitValue?_of_isDigit h]
  have hle : c ≤ '9' := of_decide_eq_true (Bool.and_eq_true_iff.1 h).2
  have hle : c.toNat ≤ 57 := hle
  exact decide_eq_true (show c.toNat - 48 < 10 by omega)

/-- Digits write the number that they write in base ten. -/
theorem number?_of_isDigit {cs : List Char} (h : ∀ c ∈ cs, c.isDigit = true) :
    number? 10 cs = some (Nat.ofDigitChars 10 cs 0) := by
  have hfold (cs : List Char) (h : ∀ c ∈ cs, c.isDigit = true) (n : Nat) :
      cs.foldlM (fun n c => if isDigitOf 10 c then (digitValue? c).map (10 * n + ·) else none) n
        = some (Nat.ofDigitChars 10 cs n) := by
    induction cs generalizing n with
    | nil => rfl
    | cons c rest ih =>
      have hc := h c List.mem_cons_self
      rw [List.foldlM_cons, if_pos (isDigitOf_ten hc), digitValue?_of_isDigit hc,
        Nat.ofDigitChars_cons]
      exact ih (fun c' hc' => h c' (List.mem_cons_of_mem _ hc')) _
  exact hfold cs h 0

/-- A decimal number is written with decimal digits. -/
theorem isDigit_toDigits {n : Nat} {c : Char} (h : c ∈ Nat.toDigits 10 n) : c.isDigit = true :=
  Nat.isDigit_of_mem_toDigits (by decide) (by decide) h

/-- **The digits of a number write it.** -/
theorem number?_toDigits (n : Nat) : number? 10 (Nat.toDigits 10 n) = some n := by
  rw [number?_of_isDigit fun c hc => isDigit_toDigits hc, Nat.ofDigitChars_ten_toDigits]

/-- Only zero begins with a zero. -/
theorem toDigits_ne_zero_cons {n : Nat} (hn : 0 < n) (more : List Char) :
    Nat.toDigits 10 n ≠ '0' :: more := by
  induction n using Nat.strongRecOn generalizing more with
  | ind n ih =>
    by_cases hlt : n < 10
    · rw [Nat.toDigits_of_lt_base hlt]
      intro h
      have hzero : n.digitChar = '0' := (List.cons.inj h).1
      have hall : ∀ k < 10, k.digitChar = '0' → k = 0 := by decide
      exact Nat.ne_of_gt hn (hall n hlt hzero)
    · rw [Nat.toDigits_of_base_le (by decide) (Nat.le_of_not_lt hlt)]
      cases hdigits : Nat.toDigits 10 (n / 10) with
      | nil => exact absurd hdigits Nat.toDigits_ne_nil
      | cons c rest =>
        intro h
        have hc : c = '0' := (List.cons.inj h).1
        exact ih (n / 10) (by omega) (by omega) rest (hc ▸ hdigits)

end Text

namespace Json

/-! ## Strings -/

/-- What a character of a text is read as. -/
def pieceOf (c : Char) : Piece :=
  if c = '\n' ∨ c = '\r' ∨ c = '\t' ∨ c.toNat = 8 ∨ c.toNat = 12 then .char c
  else if c.toNat < 32 then .unit c.toNat
  else .char c

/-- Two hexadecimal digits at the end of four give a small number. -/
theorem number?_hexText : ∀ n < 32, n < 16 →
    ∃ d, (Text.hexText n).toList = [d] ∧ Text.number? 16 ['0', '0', '0', d] = some n := by
  intro n _ hn
  have h : ∀ n < 16, (Nat.toDigits 16 n).length = 1 ∧
      Text.number? 16 ('0' :: '0' :: '0' :: Nat.toDigits 16 n) = some n := by decide
  obtain ⟨hlength, hnumber⟩ := h n hn
  obtain ⟨d, hd⟩ := List.length_eq_one_iff.1 hlength
  rw [hd] at hnumber
  exact ⟨d, by rw [Text.hexText, String.toList_ofList, hd], hnumber⟩

/-- Two digits of four write a number from sixteen on. The numbers below a blank are the ones that
an escape is written for. -/
theorem number?_hexText_two : ∀ n < 32, 16 ≤ n →
    ∃ d e, (Text.hexText n).toList = [d, e] ∧ Text.number? 16 ['0', '0', d, e] = some n := by
  intro n hn hle
  have h : ∀ n < 32, 16 ≤ n → (Nat.toDigits 16 n).length = 2 ∧
      Text.number? 16 ('0' :: '0' :: Nat.toDigits 16 n) = some n := by decide
  obtain ⟨hlength, hnumber⟩ := h n hn hle
  obtain ⟨d, e, hde⟩ := List.length_eq_two.1 hlength
  rw [hde] at hnumber
  exact ⟨d, e, by rw [Text.hexText, String.toList_ofList, hde], hnumber⟩

/-- **An escaped character is read as one piece.** -/
theorem readPieces_escape (c : Char) (cs : List Char) :
    readPieces ((escape c).toList ++ cs)
      = (readPieces cs).map fun found => (pieceOf c :: found.1, found.2) := by
  -- A character behind the backslash that stands for another one.
  have hsimple {d e : Char} (he : simpleEscape? d = some e) (hd : d ≠ 'u') :
      readPieces ('\\' :: d :: cs)
        = (readPieces cs).map fun found => (.char e :: found.1, found.2) := by
    rw [readPieces.eq_3 _ _ fun _ _ _ _ _ h _ => hd h, he]
    cases readPieces cs <;> rfl
  -- Four hexadecimal digits that stand for a number.
  have hunit {a b d e : Char} {n : Nat} (h : Text.number? 16 [a, b, d, e] = some n) :
      readPieces ('\\' :: 'u' :: a :: b :: d :: e :: cs)
        = (readPieces cs).map fun found => (.unit n :: found.1, found.2) := by
    rw [readPieces, h]
    cases readPieces cs <;> rfl
  -- The cases are those of the printer, from the quotation mark to the character that stands for
  -- itself.
  unfold escape
  by_cases hquote : c = '"'
  · subst hquote
    exact hsimple rfl (by decide)
  rw [if_neg hquote]
  by_cases hslash : c = '\\'
  · subst hslash
    exact hsimple rfl (by decide)
  rw [if_neg hslash]
  by_cases hn : c = '\n'
  · subst hn
    exact hsimple rfl (by decide)
  rw [if_neg hn]
  by_cases hr : c = '\r'
  · subst hr
    exact hsimple rfl (by decide)
  rw [if_neg hr]
  by_cases ht : c = '\t'
  · subst ht
    exact hsimple rfl (by decide)
  rw [if_neg ht]
  by_cases hb : c.toNat = 8
  · obtain rfl : c = '\x08' := Char.toNat_inj.1 hb
    exact hsimple rfl (by decide)
  rw [if_neg hb]
  by_cases hf : c.toNat = 12
  · obtain rfl : c = '\x0c' := Char.toNat_inj.1 hf
    exact hsimple rfl (by decide)
  rw [if_neg hf]
  -- Control characters without a name of their own are written with four digits.
  have hspecial : ¬ (c = '\n' ∨ c = '\r' ∨ c = '\t' ∨ c.toNat = 8 ∨ c.toNat = 12) := by
    simp [hn, hr, ht, hb, hf]
  unfold pieceOf
  rw [if_neg hspecial]
  by_cases hsmall : c.toNat < 16
  · obtain ⟨d, hd, hnumber⟩ := number?_hexText c.toNat (by omega) hsmall
    rw [if_pos hsmall, if_pos (by omega : c.toNat < 32), String.toList_append, hd]
    exact hunit hnumber
  rw [if_neg hsmall]
  by_cases hcontrol : c.toNat < 32
  · obtain ⟨d, e, hde, hnumber⟩ := number?_hexText_two c.toNat hcontrol (by omega)
    rw [if_pos hcontrol, if_pos hcontrol, String.toList_append, hde]
    exact hunit hnumber
  rw [if_neg hcontrol, if_neg hcontrol]
  rw [String.toList_singleton, List.singleton_append,
    readPieces.eq_4 _ _ hquote (fun _ _ _ _ _ h _ => hslash h) fun _ _ h _ => hslash h,
    if_neg (by simp [hcontrol, hslash])]
  cases readPieces cs <;> rfl

/-- The pieces of a text make the text. -/
theorem joinPieces_map_pieceOf (cs : List Char) : joinPieces (cs.map pieceOf) = some cs := by
  have hunit {n : Nat} (h : n < 32) (pieces : List Piece) :
      joinPieces (.unit n :: pieces) = (joinPieces pieces).map (Char.ofNat n :: ·) := by
    have hhigh : isHighSurrogate n = false := by
      simp [isHighSurrogate]
      omega
    have hlow : isLowSurrogate n = false := by
      simp [isLowSurrogate]
      omega
    cases pieces with
    | nil => simp [joinPieces, hhigh, hlow]
    | cons p rest =>
      cases p with
      | char c => simp [joinPieces, hhigh, hlow]
      | unit m => simp [joinPieces, hhigh, hlow]
  induction cs with
  | nil => rfl
  | cons c rest ih =>
    have hpiece : pieceOf c = .char c ∨ pieceOf c = .unit c.toNat ∧ c.toNat < 32 := by
      unfold pieceOf
      split
      · exact .inl rfl
      · split
        · exact .inr ⟨rfl, by assumption⟩
        · exact .inl rfl
    rw [List.map_cons]
    rcases hpiece with h | ⟨h, hsmall⟩
    · simp [h, joinPieces, ih]
    · rw [h, hunit hsmall, ih, Option.map_some, Char.ofNat_toNat]

/-- **A string literal is read as its text.** -/
theorem readString_literal (s : String) (cs : List Char) :
    ∃ more, (literal (some s)).toList ++ cs = '"' :: more ∧
      readString more = some (some s, cs) := by
  have key (l : List Char) : readPieces ((String.join (l.map escape)).toList ++ '"' :: cs)
      = some (l.map pieceOf, cs) := by
    induction l with
    | nil => rfl
    | cons c rest ih =>
      rw [List.map_cons, String.join_cons, String.toList_append, List.append_assoc,
        readPieces_escape, ih]
      rfl
  refine ⟨(String.join (s.toList.map escape)).toList ++ '"' :: cs, ?_, ?_⟩
  · simp [literal, String.toList_append]
  · unfold readString
    rw [key, Option.map_some]
    dsimp only
    rw [joinPieces_map_pieceOf, Option.map_some, String.ofList_toList]

/-! ## What the reader does

One equation for each thing that the reader does, in terms of the first character behind the blanks.
Every call uses up one unit of fuel. -/

section Steps

variable {fuel : Nat} {cs rest more : List Char}

/-- A bracket closes the items of a list. -/
theorem readItems_close (h : skipSpaces cs = ']' :: rest) :
    readItems (fuel + 1) cs = some ([], rest) := by
  unfold readItems
  rw [h]
  rfl

/-- Behind a comma stands an item, and then the other items. -/
theorem readItems_comma {v : Value} {items : List Value} (h : skipSpaces cs = ',' :: rest)
    {more' : List Char} (hv : readValue fuel rest = some (v, more))
    (hitems : readItems fuel more = some (items, more')) :
    readItems (fuel + 1) cs = some (v :: items, more') := by
  unfold readItems
  rw [h]
  show ((readValue fuel rest).bind fun found => (readItems fuel found.2).bind fun others =>
    some (found.1 :: others.1, others.2)) = _
  rw [hv, Option.bind_some, hitems]
  rfl

/-- A field is a name, a colon and a value. -/
theorem readField_name {name : Text?} {v : Value} {after last : List Char}
    (h : skipSpaces cs = '"' :: rest) (hname : readString rest = some (name, more))
    (hcolon : skipSpaces more = ':' :: after) (hv : readValue fuel after = some (v, last)) :
    readField (fuel + 1) cs = some ((name, v), last) := by
  unfold readField
  simp only [h, hname, Option.bind_eq_bind, Option.bind_some, hcolon]
  show ((readValue fuel after).bind fun v => some ((name, v.1), v.2)) = _
  rw [hv]
  rfl

/-- A brace closes the fields of an object. -/
theorem readFields_close (h : skipSpaces cs = '\x7d' :: rest) :
    readFields (fuel + 1) cs = some ([], rest) := by
  unfold readFields
  rw [h]
  rfl

/-- Behind a comma stands a field, and then the other fields. -/
theorem readFields_comma {f : Text? × Value} {fields : List (Text? × Value)}
    (h : skipSpaces cs = ',' :: rest) {last : List Char}
    (hf : readField fuel rest = some (f, more))
    (hfields : readFields fuel more = some (fields, last)) :
    readFields (fuel + 1) cs = some (f :: fields, last) := by
  unfold readFields
  rw [h]
  show ((readField fuel rest).bind fun found => (readFields fuel found.2).bind fun others =>
    some (found.1 :: others.1, others.2)) = _
  rw [hf, Option.bind_some, hfields]
  rfl

/-- A list that its bracket does not close at once has a first item, and then others. -/
theorem readValue_array {v : Value} {items : List Value} {c : Char} {last : List Char}
    (h : skipSpaces cs = '[' :: rest) (hopens : ∃ tail, skipSpaces rest = c :: tail)
    (hc : c ≠ ']') (hv : readValue fuel (skipSpaces rest) = some (v, more))
    (hitems : readItems fuel more = some (items, last)) :
    readValue (fuel + 1) cs = some (.array (v :: items), last) := by
  obtain ⟨tail, htail⟩ := hopens
  rw [readValue.eq_def]
  simp only [h]
  rw [htail] at hv ⊢
  split
  · rename_i he
    exact absurd (List.cons.inj he).1 hc
  · rw [hv]
    show ((readItems fuel more).bind fun others =>
      some (Value.array (v :: others.1), others.2)) = _
    rw [hitems]
    rfl

/-- An object that its brace does not close at once has a first field, and then others. -/
theorem readValue_object {f : Text? × Value} {fields : List (Text? × Value)} {c : Char}
    {last : List Char} (h : skipSpaces cs = '\x7b' :: rest)
    (hopens : ∃ tail, skipSpaces rest = c :: tail) (hc : c ≠ '\x7d')
    (hf : readField fuel (skipSpaces rest) = some (f, more))
    (hfields : readFields fuel more = some (fields, last)) :
    readValue (fuel + 1) cs = some (.object (f :: fields), last) := by
  obtain ⟨tail, htail⟩ := hopens
  rw [readValue.eq_def]
  simp only [h]
  rw [htail] at hf ⊢
  split
  · rename_i he
    exact absurd (List.cons.inj he).1 hc
  · rw [hf]
    show ((readFields fuel more).bind fun others =>
      some (Value.object (f :: others.1), others.2)) = _
    rw [hfields]
    rfl

/-- A mark opens a string. -/
theorem readValue_string {s : Text?} (h : skipSpaces cs = '"' :: rest)
    (hs : readString rest = some (s, more)) : readValue (fuel + 1) cs = some (.string s, more) := by
  unfold readValue
  rw [h]
  show ((readString rest).map fun found => (Value.string found.1, found.2)) = _
  rw [hs]
  rfl

/-- A digit begins a number, since it is none of the marks and words that begin the other values. -/
theorem readValue_number {n : String} {c : Char} (h : skipSpaces cs = c :: rest)
    (hc : c.isDigit = true) (hn : readNumber (c :: rest) = some (n, more)) :
    readValue (fuel + 1) cs = some (.number n, more) := by
  have hne {d : Char} (hd : d.isDigit = false) : c ≠ d := fun e => by
    rw [e, hd] at hc
    cases hc
  unfold readValue
  rw [h]
  split
  case h_7 => rw [hn]; rfl
  all_goals
    rename_i he
    exact absurd (List.cons.inj he).1 (hne rfl)

end Steps
/-! ## Values

A number is over where a character stands with which it could not go on. Where a value is printed,
this is a comma, the line with the end of a list or an object, or the end of the text. So a value in
the middle of a text is read back with any of these behind it; and because this is said for every
indentation, it can be said of the parts of a list or an object too, which are indented deeper than
the whole. -/

/-- Whether no number goes on with the characters that stand here. -/
def Ends (cs : List Char) : Prop := cs = [] ∨ ∃ more, cs = ',' :: more ∨ cs = '\n' :: more

/-- Whether the literal of a number is read as what it is. -/
structure ReadsBack (literal : String) : Prop where
  opens : ∃ c more, literal.toList = c :: more ∧ c.isDigit = true
  reads : ∀ cs, Ends cs → readNumber (literal.toList ++ cs) = some (literal, cs)

/-- Digits are read up to the end of a number. -/
theorem readDigits_append {ds cs : List Char} (hds : ds ≠ []) (h : ∀ c ∈ ds, c.isDigit = true)
    (hcs : Ends cs) : readDigits (ds ++ cs) = some (ds, cs) := by
  have hnone : cs.takeWhile Char.isDigit = [] ∧ cs.dropWhile Char.isDigit = cs := by
    rcases hcs with rfl | ⟨more, rfl | rfl⟩ <;> exact ⟨rfl, rfl⟩
  unfold readDigits
  rw [List.takeWhile_append_of_pos h, List.dropWhile_append_of_pos h, hnone.1, hnone.2,
    List.append_nil]
  cases ds with
  | nil => exact absurd rfl hds
  | cons d rest => rfl

/-- The digits of a number are read as its whole part. The reader takes a zero for the whole part
by itself, and zero is the only number that is written with one in front. -/
theorem readWhole_toDigits (n : Nat) {cs : List Char} (hcs : Ends cs) :
    readWhole (Nat.toDigits 10 n ++ cs) = some (Nat.toDigits 10 n, cs) := by
  by_cases hn : n = 0
  · rw [hn]
    rcases hcs with rfl | ⟨more, rfl | rfl⟩ <;> rfl
  · have hdigit (c : Char) (hc : c ∈ Nat.toDigits 10 n) : c.isDigit = true :=
      Text.isDigit_toDigits hc
    have hdigits := readDigits_append Nat.toDigits_ne_nil hdigit hcs
    cases hfirst : Nat.toDigits 10 n with
    | nil => exact absurd hfirst Nat.toDigits_ne_nil
    | cons d rest =>
      have hd : d ≠ '0' := fun h =>
        Text.toDigits_ne_zero_cons (Nat.pos_of_ne_zero hn) rest (h ▸ hfirst)
      rw [hfirst] at hdigits
      unfold readWhole
      split
      · rename_i heq
        exact absurd (List.cons.inj heq).1 hd
      · exact hdigits

/-- Where a number is over, no fraction follows. -/
theorem Ends.readFraction_eq {cs : List Char} (h : Ends cs) : readFraction cs = some ([], cs) := by
  rcases h with rfl | ⟨more, rfl | rfl⟩ <;> rfl

/-- Where a number is over, no exponent follows. -/
theorem Ends.readExponent_eq {cs : List Char} (h : Ends cs) : readExponent cs = some ([], cs) := by
  rcases h with rfl | ⟨more, rfl | rfl⟩ <;> rfl

/-- **A number is read as its literal.** -/
theorem readsBack_toString (n : Nat) : ReadsBack (toString n) := by
  have hliteral : (toString n).toList = Nat.toDigits 10 n := by
    rw [Nat.toString_eq_ofList_toDigits, String.toList_ofList]
  obtain ⟨d, rest, hfirst⟩ := List.exists_cons_of_ne_nil (Nat.toDigits_ne_nil (b := 10) (n := n))
  have hdigit : d.isDigit = true := Text.isDigit_toDigits (hfirst ▸ List.mem_cons_self)
  refine ⟨⟨d, rest, hliteral.trans hfirst, hdigit⟩, fun cs hcs => ?_⟩
  have hminus : d ≠ '-' := fun h => by
    rw [h] at hdigit
    cases hdigit
  have hread := readWhole_toDigits n hcs
  rw [hfirst, List.cons_append] at hread
  rw [hliteral, hfirst, List.cons_append]
  unfold readNumber
  split
  rename_i heq
  split at heq
  · rename_i hcons
    exact absurd (List.cons.inj hcons).1 hminus
  · -- No minus: whole part, fraction and exponent are read in turn, and the last two are empty.
    obtain ⟨rfl, rfl⟩ := Prod.mk.inj heq
    show (readWhole (d :: (rest ++ cs))).bind _ = _
    rw [hread]
    show (readFraction cs).bind _ = _
    rw [hcs.readFraction_eq]
    show (readExponent cs).bind _ = _
    rw [hcs.readExponent_eq, Nat.toString_eq_ofList_toDigits, hfirst]
    show some (String.ofList ([] ++ (d :: rest) ++ [] ++ []), cs) = _
    rw [List.nil_append, List.append_nil, List.append_nil]

/-- **Whether a value is one that can be read back**: its strings have a text, and its
numbers read back. -/
inductive Value.Readable : Value → Prop
  | null : Readable .null
  | bool (value : Bool) : Readable (.bool value)
  | number {literal : String} (h : ReadsBack literal) : Readable (.number literal)
  | string (s : String) : Readable (.string (some s))
  | array {items : List Value} (h : ∀ v ∈ items, Readable v) : Readable (.array items)
  | object {fields : List (Text? × Value)} (hnames : ∀ f ∈ fields, f.1.isSome = true)
      (h : ∀ f ∈ fields, Readable f.2) : Readable (.object fields)

/-- Where no blank stands, none is passed over. -/
theorem skipSpaces_cons {c : Char} (h : isSpace c = false) (cs : List Char) :
    skipSpaces (c :: cs) = c :: cs := by
  unfold skipSpaces
  rw [List.dropWhile_cons, if_neg (by rw [h]; exact Bool.false_ne_true)]

/-- An indentation is passed over. -/
theorem skipSpaces_newLine (level : Nat) {c : Char} (h : isSpace c = false) (cs : List Char) :
    skipSpaces ((newLine level).toList ++ c :: cs) = c :: cs := by
  have key (n : Nat) : skipSpaces (List.replicate n ' ' ++ c :: cs) = c :: cs := by
    induction n with
    | zero => exact skipSpaces_cons h cs
    | succ n ih => exact ih
  have hline : (newLine level).toList = '\n' :: List.replicate (2 * level) ' ' := by
    simp [newLine]
  rw [hline]
  exact key (2 * level)

/-- A value is looked for behind blanks. -/
theorem readValue_congr (fuel : Nat) {cs cs' : List Char} (h : skipSpaces cs = skipSpaces cs') :
    readValue fuel cs = readValue fuel cs' := by
  cases fuel with
  | zero => rfl
  | succ fuel =>
    unfold readValue
    rw [h]

/-- A new line ends a number. -/
theorem ends_newLine (level : Nat) (cs : List Char) : Ends ((newLine level).toList ++ cs) := by
  unfold newLine
  rw [String.toList_append]
  exact .inr ⟨_, .inr rfl⟩

/-- The first character of a printed value is none that ends a list or an object. -/
structure Opens (c : Char) : Prop where
  space : isSpace c = false
  bracket : c ≠ ']'
  brace : c ≠ '\x7d'

/-- Whether a value is read back from what it is printed as, at any level and whatever stands
behind it, with as much fuel as its characters call for. -/
def Value.ReadBack (v : Value) : Prop := ∀ level,
  (∃ c more, (v.printAt level).toList = c :: more ∧ Opens c) ∧
    ∀ fuel cs, Ends cs → 2 * (v.printAt level).toList.length ≤ fuel →
      readValue fuel ((v.printAt level).toList ++ cs) = some (v, cs)

/-- A value that is printed as one word is read back. -/
theorem readBack_word {v : Value} (c : Char) (word : List Char)
    (hprint : ∀ level, (v.printAt level).toList = c :: word) (hc : Opens c)
    (hread : ∀ fuel cs, readValue (fuel + 1) (c :: (word ++ cs)) = some (v, cs)) :
    v.ReadBack := by
  refine fun level => ⟨⟨c, word, hprint level, hc⟩, fun fuel cs _ hfuel => ?_⟩
  rw [hprint, List.length_cons] at hfuel
  obtain ⟨fuel, rfl⟩ : ∃ n, fuel = n + 1 := ⟨fuel - 1, by omega⟩
  rw [hprint]
  exact hread fuel cs

/-- The first character behind an indentation is the next one that is printed. -/
theorem Value.ReadBack.skipSpaces_newLine {v : Value} (h : v.ReadBack) (level : Nat)
    (cs : List Char) :
    skipSpaces ((newLine level).toList ++ ((v.printAt level).toList ++ cs))
      = (v.printAt level).toList ++ cs := by
  obtain ⟨⟨c, more, hopens, hc⟩, -⟩ := h level
  rw [hopens, List.cons_append, Json.skipSpaces_newLine level hc.space]

/-- A value that stands on a line of its own is read back. -/
theorem Value.ReadBack.readValue_newLine {v : Value} (h : v.ReadBack) {level fuel : Nat}
    {cs : List Char} (hcs : Ends cs) (hfuel : 2 * (v.printAt level).toList.length ≤ fuel) :
    readValue fuel ((newLine level).toList ++ ((v.printAt level).toList ++ cs))
      = some (v, cs) := by
  obtain ⟨⟨c, more, hopens, hc⟩, hread⟩ := h level
  rw [← hread fuel cs hcs hfuel]
  refine readValue_congr fuel ?_
  rw [h.skipSpaces_newLine, hopens, List.cons_append, skipSpaces_cons hc.space]

/-- What stands behind an element is another one, or the line with the end. -/
theorem ends_printItems (level : Nat) (items : List Value) (cs : List Char) :
    Ends ((printItems (level + 1) items).toList ++ ((newLine level).toList ++ cs)) := by
  cases items with
  | nil => exact ends_newLine level cs
  | cons v rest =>
    unfold printItems
    simp only [String.toList_append, List.append_assoc]
    exact .inr ⟨_, .inl rfl⟩

/-- The elements of a list behind the first are read back. -/
theorem readItems_printItems {items : List Value} (h : ∀ v ∈ items, v.ReadBack)
    (level fuel : Nat) (cs : List Char)
    (hfuel : 2 * (printItems (level + 1) items).toList.length + 1 ≤ fuel) :
    readItems fuel ((printItems (level + 1) items).toList
      ++ ((newLine level).toList ++ ']' :: cs)) = some (items, cs) := by
  induction items generalizing fuel with
  | nil =>
    obtain ⟨fuel, rfl⟩ : ∃ n, fuel = n + 1 := ⟨fuel - 1, by omega⟩
    exact readItems_close (skipSpaces_newLine level rfl cs)
  | cons v rest ih =>
    obtain ⟨fuel, rfl⟩ : ∃ n, fuel = n + 1 := ⟨fuel - 1, by omega⟩
    have hcomma : ",".toList = [','] := rfl
    unfold printItems at hfuel ⊢
    simp only [String.toList_append, List.append_assoc, List.length_append, hcomma,
      List.length_singleton] at hfuel ⊢
    -- The comma is on the line of the item before. The item stands on its own line, and the
    -- others, or the end of the list, are what it ends with.
    exact readItems_comma (skipSpaces_cons rfl _)
      ((h v List.mem_cons_self).readValue_newLine (ends_printItems level rest _) (by omega))
      (ih (fun w hw => h w (List.mem_cons_of_mem _ hw)) fuel (by omega))

/-- A name, a colon and a value are read back. -/
theorem readField_literal {name : Text?} {v : Value} (hname : name.isSome = true)
    (h : v.ReadBack) (level : Nat) {fuel : Nat} {cs before : List Char} (hcs : Ends cs)
    (hbefore : skipSpaces before = (literal name).toList
      ++ (": ".toList ++ ((v.printAt level).toList ++ cs)))
    (hfuel : 2 * (v.printAt level).toList.length + 1 ≤ fuel) :
    readField fuel before = some ((name, v), cs) := by
  obtain ⟨fuel, rfl⟩ : ∃ n, fuel = n + 1 := ⟨fuel - 1, by omega⟩
  obtain ⟨s, rfl⟩ := Option.isSome_iff_exists.1 hname
  obtain ⟨more, hopens, hread⟩ := readString_literal s
    (": ".toList ++ ((v.printAt level).toList ++ cs))
  have hspace : skipSpaces (' ' :: ((v.printAt level).toList ++ cs))
      = skipSpaces ((v.printAt level).toList ++ cs) := rfl
  refine readField_name (hbefore.trans hopens) hread
    (skipSpaces_cons rfl (' ' :: ((v.printAt level).toList ++ cs))) ?_
  rw [readValue_congr fuel hspace]
  exact (h level).2 fuel cs hcs (by omega)

/-- What stands behind a field is another one, or the line with the end. -/
theorem ends_printFields (level : Nat) (fields : List (Text? × Value)) (cs : List Char) :
    Ends ((printFields (level + 1) fields).toList ++ ((newLine level).toList ++ cs)) := by
  cases fields with
  | nil => exact ends_newLine level cs
  | cons f rest =>
    unfold printFields
    simp only [String.toList_append, List.append_assoc]
    exact .inr ⟨_, .inl rfl⟩

/-- The first character behind an indentation is the mark that opens a name. -/
theorem skipSpaces_newLine_literal (level : Nat) {name : Text?} (hname : name.isSome = true)
    (cs : List Char) : skipSpaces ((newLine level).toList ++ ((literal name).toList ++ cs))
      = (literal name).toList ++ cs := by
  obtain ⟨s, rfl⟩ := Option.isSome_iff_exists.1 hname
  obtain ⟨more, hopens, -⟩ := readString_literal s cs
  rw [hopens, skipSpaces_newLine level rfl]

/-- The fields of an object behind the first are read back. -/
theorem readFields_printFields {fields : List (Text? × Value)}
    (hnames : ∀ f ∈ fields, f.1.isSome = true) (h : ∀ f ∈ fields, f.2.ReadBack)
    (level fuel : Nat) (cs : List Char)
    (hfuel : 2 * (printFields (level + 1) fields).toList.length + 1 ≤ fuel) :
    readFields fuel ((printFields (level + 1) fields).toList
      ++ ((newLine level).toList ++ '\x7d' :: cs)) = some (fields, cs) := by
  induction fields generalizing fuel with
  | nil =>
    obtain ⟨fuel, rfl⟩ : ∃ n, fuel = n + 1 := ⟨fuel - 1, by omega⟩
    exact readFields_close (skipSpaces_newLine level rfl cs)
  | cons f rest ih =>
    obtain ⟨name, v⟩ := f
    obtain ⟨fuel, rfl⟩ : ∃ n, fuel = n + 1 := ⟨fuel - 1, by omega⟩
    have hcomma : ",".toList = [','] := rfl
    have hname : name.isSome = true := hnames (name, v) List.mem_cons_self
    have hv : v.ReadBack := h (name, v) List.mem_cons_self
    unfold printFields at hfuel ⊢
    simp only [String.toList_append, List.append_assoc, List.length_append, hcomma,
      List.length_singleton] at hfuel ⊢
    -- As with the items of a list, only that a name stands in front of the value.
    exact readFields_comma (skipSpaces_cons rfl _)
      (readField_literal hname hv _ (ends_printFields level rest _)
        (skipSpaces_newLine_literal _ hname _) (by omega))
      (ih (fun w hw => hnames w (List.mem_cons_of_mem _ hw))
        (fun w hw => h w (List.mem_cons_of_mem _ hw)) fuel (by omega))

/-- A list of values that are read back is read back. -/
theorem readBack_array {items : List Value} (h : ∀ v ∈ items, v.ReadBack) :
    (Value.array items).ReadBack := by
  cases items with
  | nil =>
    exact readBack_word '[' [']'] (fun level => by simp [Value.printAt])
      (by constructor <;> decide) fun _ _ => rfl
  | cons v rest =>
    intro level
    have hv := h v List.mem_cons_self
    have hprint : ((Value.array (v :: rest)).printAt level).toList
        = '[' :: ((newLine (level + 1)).toList ++ ((v.printAt (level + 1)).toList
          ++ ((printItems (level + 1) rest).toList ++ ((newLine level).toList ++ [']'])))) := by
      rw [Value.printAt]
      simp only [String.toList_append, List.append_assoc]
      rfl
    rw [hprint]
    refine ⟨⟨'[', _, rfl, by constructor <;> decide⟩, fun fuel cs _ hfuel => ?_⟩
    simp only [List.length_cons, List.length_append, List.length_nil] at hfuel
    obtain ⟨fuel, rfl⟩ : ∃ n, fuel = n + 1 := ⟨fuel - 1, by omega⟩
    obtain ⟨⟨c, more, hc, hopens⟩, -⟩ := hv (level + 1)
    simp only [List.cons_append, List.append_assoc, List.nil_append]
    have hskip := hv.skipSpaces_newLine (level + 1)
      ((printItems (level + 1) rest).toList ++ ((newLine level).toList ++ ']' :: cs))
    -- The list is not taken for an empty one: behind the indentation the first item begins, and
    -- no value begins with a bracket that closes.
    have hfirst : ∃ tail, skipSpaces ((newLine (level + 1)).toList
        ++ ((v.printAt (level + 1)).toList ++ ((printItems (level + 1) rest).toList
          ++ ((newLine level).toList ++ ']' :: cs)))) = c :: tail := by
      rw [hskip, hc]
      exact ⟨_, rfl⟩
    refine readValue_array (skipSpaces_cons rfl _) hfirst hopens.bracket ?_
      (readItems_printItems (fun w hw => h w (List.mem_cons_of_mem _ hw)) level fuel cs
        (by omega))
    · rw [hskip]
      exact (hv (level + 1)).2 fuel _ (ends_printItems level rest _) (by omega)

/-- An object of values that are read back is read back. -/
theorem readBack_object {fields : List (Text? × Value)}
    (hnames : ∀ f ∈ fields, f.1.isSome = true) (h : ∀ f ∈ fields, f.2.ReadBack) :
    (Value.object fields).ReadBack := by
  cases fields with
  | nil =>
    exact readBack_word '\x7b' ['\x7d'] (fun level => by simp [Value.printAt])
      (by constructor <;> decide) fun _ _ => rfl
  | cons f rest =>
    intro level
    obtain ⟨name, v⟩ := f
    have hv : v.ReadBack := h (name, v) List.mem_cons_self
    have hname : name.isSome = true := hnames (name, v) List.mem_cons_self
    have hprint : ((Value.object ((name, v) :: rest)).printAt level).toList
        = '\x7b' :: ((newLine (level + 1)).toList ++ ((literal name).toList ++ (": ".toList
          ++ ((v.printAt (level + 1)).toList ++ ((printFields (level + 1) rest).toList
            ++ ((newLine level).toList ++ ['\x7d'])))))) := by
      rw [Value.printAt]
      simp only [String.toList_append, List.append_assoc]
      rfl
    rw [hprint]
    refine ⟨⟨'\x7b', _, rfl, by constructor <;> decide⟩, fun fuel cs _ hfuel => ?_⟩
    simp only [List.length_cons, List.length_append, List.length_nil] at hfuel
    obtain ⟨fuel, rfl⟩ : ∃ n, fuel = n + 1 := ⟨fuel - 1, by omega⟩
    simp only [List.cons_append, List.append_assoc, List.nil_append]
    have hskip := skipSpaces_newLine_literal (level + 1) hname (": ".toList
      ++ ((v.printAt (level + 1)).toList ++ ((printFields (level + 1) rest).toList
        ++ ((newLine level).toList ++ '\x7d' :: cs))))
    obtain ⟨s, rfl⟩ := Option.isSome_iff_exists.1 hname
    obtain ⟨more, hopens, -⟩ := readString_literal s (": ".toList
      ++ ((v.printAt (level + 1)).toList ++ ((printFields (level + 1) rest).toList
        ++ ((newLine level).toList ++ '\x7d' :: cs))))
    -- The object is not taken for an empty one, since the name begins with its mark.
    refine readValue_object (skipSpaces_cons rfl _) ⟨more, hskip.trans hopens⟩ (by decide) ?_
      (readFields_printFields (fun w hw => hnames w (List.mem_cons_of_mem _ hw))
        (fun w hw => h w (List.mem_cons_of_mem _ hw)) level fuel cs (by omega))
    refine readField_literal hname hv (level + 1) (ends_printFields level rest _) ?_
      (by omega)
    rw [hskip, hopens, skipSpaces_cons rfl]

/-- **Every readable value is read back.** -/
theorem Value.Readable.readBack {v : Value} (h : v.Readable) : v.ReadBack := by
  induction h with
  | null =>
    exact readBack_word 'n' ['u', 'l', 'l']
      (fun level => by simp [Value.printAt]) (by constructor <;> decide) fun _ _ => rfl
  | bool b =>
    cases b with
    | true =>
      exact readBack_word 't' ['r', 'u', 'e']
        (fun level => by simp [Value.printAt]) (by constructor <;> decide) fun _ _ => rfl
    | false =>
      exact readBack_word 'f' ['a', 'l', 's', 'e']
        (fun level => by simp [Value.printAt]) (by constructor <;> decide) fun _ _ => rfl
  | @number literal h =>
    -- The first digit is no blank and closes nothing, so it opens the value.
    intro level
    obtain ⟨c, more, hc, hdigit⟩ := h.opens
    have hne {d : Char} (hd : d.isDigit = false) : c ≠ d := fun e => by
      rw [e, hd] at hdigit
      cases hdigit
    have hspace : isSpace c = false := by
      unfold isSpace
      simp [hne (d := ' ') rfl, hne (d := '\n') rfl, hne (d := '\t') rfl, hne (d := '\r') rfl]
    have hprint : (Value.number literal).printAt level = literal := by simp [Value.printAt]
    rw [hprint]
    refine ⟨⟨c, more, hc, hspace, hne rfl, hne rfl⟩, fun fuel cs hcs hfuel => ?_⟩
    have hread := h.reads cs hcs
    rw [hc] at hread hfuel ⊢
    rw [List.length_cons] at hfuel
    obtain ⟨fuel, rfl⟩ : ∃ n, fuel = n + 1 := ⟨fuel - 1, by omega⟩
    exact readValue_number (skipSpaces_cons hspace _) hdigit hread
  | string s =>
    intro level
    have hprint : (Value.string (some s)).printAt level = literal (some s) := by
      simp [Value.printAt]
    rw [hprint]
    obtain ⟨more, hopens, -⟩ := readString_literal s []
    rw [List.append_nil] at hopens
    refine ⟨⟨'"', more, hopens, by constructor <;> decide⟩, fun fuel cs _ hfuel => ?_⟩
    rw [hopens, List.length_cons] at hfuel
    obtain ⟨fuel, rfl⟩ : ∃ n, fuel = n + 1 := ⟨fuel - 1, by omega⟩
    obtain ⟨more', hopens', hread⟩ := readString_literal s cs
    rw [hopens']
    exact readValue_string (skipSpaces_cons rfl _) hread
  | array _ ih => exact readBack_array ih
  | object hnames _ ih => exact readBack_object hnames ih

/-- **Reading what a readable value is printed as gives the value back.** -/
theorem Value.read?_print {v : Value} (h : v.Readable) : Value.read? v.print = some v := by
  unfold Value.read? Value.print
  dsimp only
  have := (h.readBack 0).2 (2 * (v.printAt 0).toList.length + 2) [] (.inl rfl) (by omega)
  rw [List.append_nil] at this
  rw [this]
  rfl

end Json

end IncrementalBuild
