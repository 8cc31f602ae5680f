import SpanIndex.Json.Read
import SpanIndex.Proofs.Record

/-!
# JSON values are read back from their text

`Json.read` cuts a text into tokens and then takes them one by one, so the proof is in two halves.

* Tokens: the text of a value is cut into `tokensOf` the value. A string ends at its own quote, since every
  quote inside it is escaped. A number ends where the text goes on with something that is no part of a number,
  and in the text of a value that is always so (`EndsNumber`).
* Values: a reader that takes `tokensOf` a value holds the value afterwards, and what was open around it is as
  it was. The number of arrays and objects that may be open is limited, so this is said of values that are not
  nested too deep (`Shallow`).
-/

namespace SpanIndex.Json

/-! ## Strings -/

section Strings

variable {c : Char} {text rest : List Char}

theorem hexValue?_digitChar {n : Nat} (h : n < 16) : Text.hexValue? (Nat.digitChar n) = some n := by
  have hall : ∀ d ∈ List.range 16, Text.hexValue? (Nat.digitChar d) = some d := by decide
  exact hall n (List.mem_range.mpr h)

/-- The ways to write a character: by a letter after a backslash, by its number, or as it is. -/
inductive Written (c : Char) : List Char → Prop
  | letter {e : Char} (h : escaped? e = some c) (hu : e ≠ 'u') (hle : ' ' ≤ e) : Written c ['\\', e]
  | number (h : c < ' ') : Written c (controlEscape c)
  | plain (hquote : c ≠ '"') (hbackslash : c ≠ '\\') (hle : ¬ c < ' ') : Written c [c]

theorem written_escape (c : Char) : Written c (escape c) := by
  unfold escape
  split_ifs with hquote hbackslash hb ht hn hf hr hcontrol
  · exact .letter (by simp [hquote, escaped?]) (by decide) (by decide)
  · exact .letter (by simp [hbackslash, escaped?]) (by decide) (by decide)
  · exact .letter (by simp [hb, escaped?]) (by decide) (by decide)
  · exact .letter (by simp [ht, escaped?]) (by decide) (by decide)
  · exact .letter (by simp [hn, escaped?]) (by decide) (by decide)
  · exact .letter (by simp [hf, escaped?]) (by decide) (by decide)
  · exact .letter (by simp [hr, escaped?]) (by decide) (by decide)
  · exact .number hcontrol
  · exact .plain hquote hbackslash hcontrol

/-- A control character is read back from its number. -/
theorem readEscape_controlEscape (h : c < ' ') :
    readEscape ((controlEscape c).tail ++ rest) = some (c, rest) := by
  have hlt : c.toNat < 32 := h
  have hvalue : 16 * (c.toNat / 16) + c.toNat % 16 = c.toNat := Nat.div_add_mod c.toNat 16
  have hzero : Text.hexValue? '0' = some 0 := by decide
  simp only [controlEscape, List.tail_cons, List.cons_append, List.nil_append, readEscape, Text.readHex,
    hzero, hexValue?_digitChar (show c.toNat / 16 < 16 by omega),
    hexValue?_digitChar (show c.toNat % 16 < 16 by omega), Nat.mul_zero, Nat.zero_add, hvalue]
  -- a number this small is no half of a surrogate pair
  rw [if_neg (by simp [isLeading]; omega), if_neg (by simp [isTrailing]; omega), Char.ofNat_toNat]

theorem readString_backslash (h : readEscape text = some (c, rest)) :
    readString ('\\' :: text) = (readString rest).map fun s => (c :: s.1, s.2) := by
  rw [readString, if_neg (by decide), if_pos rfl]
  split
  · next hnone => simp [h] at hnone
  · next hsome =>
    obtain ⟨rfl, rfl⟩ := Prod.mk.inj (Option.some.inj (h.symm.trans hsome))
    rfl

/-- What is written for a character is read as the character. -/
theorem Written.readString_append (h : Written c text) (rest : List Char) :
    readString (text ++ rest) = (readString rest).map fun s => (c :: s.1, s.2) := by
  cases h with
  | @letter e h hu hle =>
    have hread : readEscape (e :: rest) = some (c, rest) := by
      rw [readEscape]
      · simp [h]
      · simpa using hu
    exact readString_backslash hread
  | number h => exact readString_backslash (readEscape_controlEscape h)
  | plain hquote hbackslash hle =>
    rw [List.singleton_append, readString, if_neg hquote, if_neg hbackslash, if_neg hle]

theorem readString_flatMap_escape (s rest : List Char) :
    readString (s.flatMap escape ++ '"' :: rest) = some (s, rest) := by
  induction s with
  | nil => simp [readString]
  | cons c s ih => simp [(written_escape c).readString_append, ih]

end Strings

/-! ## Numbers -/

/-- The characters that a number may go on with after its first digit. -/
def isNumberPart (c : Char) : Bool := c.isDigit || c == '.' || c == 'e' || c == 'E'

/-- What follows a number is no part of it. -/
def EndsNumber (rest : List Char) : Prop := ∀ c ∈ rest.head?, isNumberPart c = false

section Numbers

variable {n : Nat} {rest : List Char}

theorem exists_decimal (n : Nat) : ∃ d ds, Text.decimal n = d :: ds ∧ d.isDigit = true := by
  obtain ⟨d, ds, hd⟩ : ∃ d ds, Text.decimal n = d :: ds :=
    List.exists_cons_of_ne_nil Nat.toDigits_ne_nil
  exact ⟨d, ds, hd, Text.isDigit_of_mem_decimal (hd ▸ List.mem_cons_self)⟩

theorem ne_of_isDigit {c d : Char} (hd : d.isDigit = true) (hc : c.isDigit = false) : d ≠ c := by
  rintro rfl
  simp [hd] at hc

/-- Only zero begins with a zero. -/
theorem head_decimal_ne_zero (hn : 0 < n) : ∀ d ∈ (Text.decimal n).head?, d ≠ '0' := by
  -- the first digit of a longer number is that of its tenth part
  induction n using Nat.strongRecOn with
  | ind n ih =>
    by_cases hlt : n < 10
    · have hall : ∀ k ∈ List.range 10, 0 < k → Nat.digitChar k ≠ '0' := by decide
      have hdigits : Text.decimal n = [Nat.digitChar n] := Nat.toDigits_of_lt_base hlt
      simpa [hdigits] using hall n (List.mem_range.mpr hlt) hn
    · have hdigits : Text.decimal n = Text.decimal (n / 10) ++ [Nat.digitChar (n % 10)] :=
        Nat.toDigits_of_base_le (by decide) (Nat.not_lt.mp hlt)
      have hne : Text.decimal (n / 10) ≠ [] := Nat.toDigits_ne_nil
      rw [hdigits, List.head?_append_of_ne_nil _ hne]
      exact ih (n / 10) (by omega) (by omega)

theorem endsNumber_cons {c : Char} (h : isNumberPart c = false) : EndsNumber (c :: rest) := by
  rintro _ ⟨⟩
  exact h

theorem EndsNumber.head {c : Char} (h : EndsNumber (c :: rest)) :
    c.isDigit = false ∧ c ≠ '.' ∧ c ≠ 'e' ∧ c ≠ 'E' := by
  simpa [isNumberPart, and_assoc] using h c rfl

theorem splitDigits_decimal (h : EndsNumber rest) :
    splitDigits (Text.decimal n ++ rest) = (Text.decimal n, rest) := by
  have hdigits : ∀ c ∈ Text.decimal n, c.isDigit = true := fun c => Text.isDigit_of_mem_decimal
  rw [splitDigits, List.takeWhile_append_of_pos hdigits, List.dropWhile_append_of_pos hdigits]
  cases rest with
  | nil => simp
  | cons c rest => simp [h.head.1]

theorem readWhole_decimal (h : EndsNumber rest) :
    readWhole (Text.decimal n ++ rest) = some (Text.decimal n, rest) := by
  by_cases hn : n = 0
  · subst hn
    rfl
  · obtain ⟨d, ds, hd, -⟩ := exists_decimal n
    have hne : d ≠ '0' := head_decimal_ne_zero (Nat.pos_of_ne_zero hn) d (by simp [hd])
    have hsplit := splitDigits_decimal (n := n) h
    rw [hd, List.cons_append] at hsplit ⊢
    rw [readWhole, readDigits1, hsplit]
    simp [hne]

theorem readFraction_of_endsNumber (h : EndsNumber rest) : readFraction rest = some ([], rest) := by
  cases rest with
  | nil => rfl
  | cons c rest =>
    obtain ⟨-, hpoint, -⟩ := h.head
    rw [readFraction]
    simp [hpoint]

theorem readExponent_of_endsNumber (h : EndsNumber rest) : readExponent rest = some ([], rest) := by
  cases rest with
  | nil => rfl
  | cons c rest =>
    obtain ⟨-, -, he, hE⟩ := h.head
    simp [readExponent, he, hE]

theorem readNumber_decimal (h : EndsNumber rest) :
    readNumber (Text.decimal n ++ rest) = some (Text.decimal n, rest) := by
  have hunsigned : readUnsigned (Text.decimal n ++ rest) = some (Text.decimal n, rest) := by
    simp [readUnsigned, readWhole_decimal h, readFraction_of_endsNumber h, readExponent_of_endsNumber h]
  obtain ⟨d, ds, hd, hdigit⟩ := exists_decimal n
  have hne : d ≠ '-' := ne_of_isDigit hdigit (by decide)
  rw [hd, List.cons_append] at hunsigned ⊢
  rw [readNumber]
  · exact hunsigned
  · simp [hne]

end Numbers

/-! ## Tokens -/

/-- The tokens of a text, as long as there is fuel for all of it. -/
def Lexes (text : List Char) (ts : List Token) : Prop :=
  ∀ fuel, text.length ≤ fuel → tokensWith fuel text = some ts

section Tokens

variable {c : Char} {text rest : List Char} {t : Token} {ts : List Token}

theorem Lexes.nil : Lexes [] [] := fun fuel _ => by cases fuel <;> rfl

theorem Lexes.space (hc : isSpace c = true) (h : Lexes rest ts) : Lexes (c :: rest) ts := by
  intro fuel hfuel
  cases fuel with
  | zero => simp at hfuel
  | succ fuel =>
    rw [tokensWith, if_pos hc]
    exact h fuel (by simpa using hfuel)

theorem Lexes.token (hc : isSpace c = false) (hread : readToken (c :: text) = some (t, rest))
    (hrest : rest <:+ text) (h : Lexes rest ts) : Lexes (c :: text) (t :: ts) := by
  intro fuel hfuel
  have hle := hrest.length_le
  cases fuel with
  | zero => simp at hfuel
  | succ fuel =>
    have htokens : tokensWith fuel rest = some ts := h fuel (by simp at hfuel; omega)
    simp [tokensWith, hc, hread, htokens]

/-- A token of one character. -/
theorem Lexes.mark (hc : isSpace c = false) (hread : readToken (c :: rest) = some (t, rest))
    (h : Lexes rest ts) : Lexes (c :: rest) (t :: ts) :=
  h.token hc hread (List.suffix_refl rest)

theorem Lexes.string (s : List Char) (h : Lexes rest ts) :
    Lexes (quote s ++ rest) (.scalar (.string s) :: ts) := by
  simp only [quote, List.cons_append, List.append_assoc, List.nil_append]
  refine h.token (by decide) ?_ ⟨s.flatMap escape ++ ['"'], by simp⟩
  simp [readToken, readString_flatMap_escape]

theorem Lexes.nat (n : Nat) (hend : EndsNumber rest) (h : Lexes rest ts) :
    Lexes (Text.decimal n ++ rest) (.scalar (.nat n) :: ts) := by
  have hread := readNumber_decimal (n := n) hend
  obtain ⟨d, ds, hd, hdigit⟩ := exists_decimal n
  have hne : ∀ c : Char, c.isDigit = false → d ≠ c := fun c => ne_of_isDigit hdigit
  rw [Json.nat]
  rw [hd, List.cons_append] at hread ⊢
  refine h.token ?_ ?_ (List.suffix_append ds rest)
  · simp [isSpace, hne]
  · -- a digit begins no other token
    rw [readToken]
    · simp [hread]
    all_goals simp [hne]

end Tokens

/-! ## The tokens of a value -/

mutual

/-- The tokens that the text of a value is cut into. -/
def tokensOf : Json → List Token
  | .array [] => [.openArray, .closeArray]
  | .array (v :: vs) => .openArray :: (tokensOf v ++ (itemTokens vs ++ [.closeArray]))
  | .object [] => [.openObject, .closeObject]
  | .object ((k, v) :: ms) =>
    .openObject :: .scalar (.string k) :: .colon :: (tokensOf v ++ (memberTokens ms ++ [.closeObject]))
  | v => [.scalar v]

/-- The tokens of the items after the first. -/
def itemTokens : List Json → List Token
  | [] => []
  | v :: vs => .comma :: (tokensOf v ++ itemTokens vs)

/-- The tokens of the members after the first. -/
def memberTokens : List (List Char × Json) → List Token
  | [] => []
  | (k, v) :: ms => .comma :: .scalar (.string k) :: .colon :: (tokensOf v ++ memberTokens ms)

end

/-- A value whose numbers are natural, with arrays and objects in each other at most `d` deep. -/
inductive Shallow : Nat → Json → Prop
  | null {d : Nat} : Shallow d .null
  | bool {d : Nat} (b : Bool) : Shallow d (.bool b)
  | nat {d : Nat} (n : Nat) : Shallow d (.nat n)
  | string {d : Nat} (s : List Char) : Shallow d (.string s)
  | array {d : Nat} {vs : List Json} (h : ∀ v ∈ vs, Shallow d v) : Shallow (d + 1) (.array vs)
  | object {d : Nat} {ms : List (List Char × Json)} (h : ∀ m ∈ ms, Shallow d m.2) :
    Shallow (d + 1) (.object ms)

section Values

variable {d : Nat} {v : Json} {vs : List Json} {ms : List (List Char × Json)} {rest : List Char}
  {ts : List Token}

theorem endsNumber_writeItems (h : EndsNumber rest) : EndsNumber (writeItems vs ++ rest) := by
  cases vs with
  | nil => simpa [writeItems] using h
  | cons v vs =>
    rw [writeItems]
    exact endsNumber_cons (by decide)

theorem endsNumber_writeMembers (h : EndsNumber rest) : EndsNumber (writeMembers ms ++ rest) := by
  cases ms with
  | nil => simpa [writeMembers] using h
  | cons m ms =>
    rw [writeMembers]
    exact endsNumber_cons (by decide)

/-- The text of a value is cut into its tokens, whatever follows. -/
def Cuts (v : Json) : Prop :=
  ∀ rest ts, EndsNumber rest → Lexes rest ts → Lexes (write v ++ rest) (tokensOf v ++ ts)

theorem Lexes.items (hvs : ∀ v ∈ vs, Cuts v) (hend : EndsNumber rest) (h : Lexes rest ts) :
    Lexes (writeItems vs ++ rest) (itemTokens vs ++ ts) := by
  induction vs with
  | nil => simpa [writeItems, itemTokens] using h
  | cons v vs ih =>
    obtain ⟨hv, hvs⟩ := List.forall_mem_cons.mp hvs
    simp only [writeItems, itemTokens, List.cons_append, List.append_assoc]
    exact (hv _ _ (endsNumber_writeItems hend) (ih hvs)).mark (by decide) rfl

theorem Lexes.member {k : List Char} (hv : Cuts v) (hend : EndsNumber rest) (h : Lexes rest ts) :
    Lexes (quote k ++ ':' :: (write v ++ rest))
      (.scalar (.string k) :: .colon :: (tokensOf v ++ ts)) :=
  ((hv _ _ hend h).mark (by decide) rfl).string k

theorem Lexes.members (hms : ∀ m ∈ ms, Cuts m.2) (hend : EndsNumber rest) (h : Lexes rest ts) :
    Lexes (writeMembers ms ++ rest) (memberTokens ms ++ ts) := by
  induction ms with
  | nil => simpa [writeMembers, memberTokens] using h
  | cons m ms ih =>
    obtain ⟨hm, hms⟩ := List.forall_mem_cons.mp hms
    simp only [writeMembers, memberTokens, List.cons_append, List.append_assoc]
    exact (Lexes.member hm (endsNumber_writeMembers hend) (ih hms)).mark (by decide) rfl

theorem Shallow.cuts (h : Shallow d v) : Cuts v := by
  induction h with
  | null => exact fun rest ts _ h => h.token (by decide) rfl ⟨"ull".toList, rfl⟩
  | bool b =>
    cases b with
    | true => exact fun rest ts _ h => h.token (by decide) rfl ⟨"rue".toList, rfl⟩
    | false => exact fun rest ts _ h => h.token (by decide) rfl ⟨"alse".toList, rfl⟩
  | nat n => exact fun rest ts hend h => h.nat n hend
  | string s =>
    intro rest ts _ h
    simpa [write, tokensOf] using h.string s
  | @array d vs _ ih =>
    intro rest ts hend h
    have hclose : Lexes (']' :: rest) (.closeArray :: ts) := h.mark (by decide) rfl
    have hends : EndsNumber (']' :: rest) := endsNumber_cons (by decide)
    cases vs with
    | nil => exact hclose.mark (by decide) rfl
    | cons v vs =>
      obtain ⟨hv, hvs⟩ := List.forall_mem_cons.mp ih
      have hitems := hclose.items hvs hends
      simp only [write, tokensOf, List.cons_append, List.append_assoc, List.nil_append]
      exact (hv _ _ (endsNumber_writeItems hends) hitems).mark (by decide) rfl
  | @object d ms _ ih =>
    intro rest ts hend h
    have hclose : Lexes ('\x7d' :: rest) (.closeObject :: ts) := h.mark (by decide) rfl
    have hends : EndsNumber ('\x7d' :: rest) := endsNumber_cons (by decide)
    cases ms with
    | nil => exact hclose.mark (by decide) rfl
    | cons m ms =>
      obtain ⟨hm, hms⟩ := List.forall_mem_cons.mp ih
      have hmembers := hclose.members hms hends
      simp only [write, tokensOf, List.cons_append, List.append_assoc, List.nil_append]
      exact (Lexes.member hm (endsNumber_writeMembers hends) hmembers).mark (by decide) rfl

end Values

/-! ## Taking the tokens -/

/-- A reader comes from one state to another by taking tokens. -/
def Goes (r : Reader) (ts : List Token) (r' : Reader) : Prop := ts.foldlM Reader.step r = some r'

section Reading

open Reader (step maxDepth)

variable {r r' r'' : Reader} {t : Token} {ts us : List Token}

theorem Goes.nil : Goes r [] r := rfl

theorem Goes.cons (hstep : step r t = some r') (h : Goes r' ts r'') : Goes r (t :: ts) r'' := by
  rw [Goes, List.foldlM_cons, hstep]
  exact h

theorem Goes.append (h : Goes r ts r') (h' : Goes r' us r'') : Goes r (ts ++ us) r'' := by
  rw [Goes, List.foldlM_append, h]
  exact h'

variable {d : Nat} {v : Json} {vs items : List Json} {ms members : List (List Char × Json)}
  {k : List Char} {around : List Open}

/-- A reader that waits for a value holds it after its tokens. -/
def Takes (d : Nat) (v : Json) : Prop :=
  ∀ around, around.length + d < maxDepth → Goes ⟨around, .value⟩ (tokensOf v) ⟨around, .after v⟩

/-- No value begins with the token that closes an array. -/
theorem Goes.itemOrEnd (h : Goes ⟨around, .value⟩ (tokensOf v) r) :
    Goes ⟨around, .itemOrEnd⟩ (tokensOf v) r := by
  match v with
  | .null | .bool _ | .number _ | .string _ => exact h
  | .array [] | .array (_ :: _) => exact h
  | .object [] | .object (_ :: _) => exact h

theorem goes_items (hvs : ∀ v ∈ vs, Takes d v) (hdepth : around.length + 1 + d < maxDepth) :
    Goes ⟨.array items :: around, .after v⟩ (itemTokens vs ++ [.closeArray])
      ⟨around, .after (.array (items.reverse ++ v :: vs))⟩ := by
  induction vs generalizing v items with
  | nil => simp [Goes, itemTokens, step, Reader.separate]
  | cons w vs ih =>
    obtain ⟨hw, hvs⟩ := List.forall_mem_cons.mp hvs
    have hrest : Goes ⟨.array (v :: items) :: around, .after w⟩ (itemTokens vs ++ [.closeArray])
        ⟨around, .after (.array ((v :: items).reverse ++ w :: vs))⟩ := ih hvs
    rw [List.reverse_cons, List.append_assoc, List.singleton_append] at hrest
    rw [itemTokens, List.cons_append, List.append_assoc]
    exact .cons rfl ((hw (.array (v :: items) :: around) hdepth).append hrest)

theorem goes_members (hms : ∀ m ∈ ms, Takes d m.2) (hdepth : around.length + 1 + d < maxDepth) :
    Goes ⟨.member members k :: around, .after v⟩ (memberTokens ms ++ [.closeObject])
      ⟨around, .after (.object (members.reverse ++ (k, v) :: ms))⟩ := by
  induction ms generalizing k v members with
  | nil => simp [Goes, memberTokens, step, Reader.separate]
  | cons m ms ih =>
    obtain ⟨hm, hms⟩ := List.forall_mem_cons.mp hms
    have hrest : Goes ⟨.member ((k, v) :: members) m.1 :: around, .after m.2⟩
        (memberTokens ms ++ [.closeObject])
        ⟨around, .after (.object (((k, v) :: members).reverse ++ m :: ms))⟩ := ih hms
    rw [List.reverse_cons, List.append_assoc, List.singleton_append] at hrest
    simp only [memberTokens, List.cons_append, List.append_assoc]
    have hvalue := (hm (.member ((k, v) :: members) m.1 :: around) hdepth).append hrest
    exact .cons rfl (.cons rfl (.cons rfl hvalue))

theorem Shallow.takes (h : Shallow d v) : Takes d v := by
  induction h with
  | null => exact fun _ _ => rfl
  | bool b => exact fun _ _ => rfl
  | nat n => exact fun _ _ => rfl
  | string s => exact fun _ _ => rfl
  | @array d vs _ ih =>
    intro around hdepth
    have hroom : around.length + 1 < maxDepth := by omega
    have henter : step ⟨around, .value⟩ .openArray = some ⟨.array [] :: around, .itemOrEnd⟩ := if_pos hroom
    have hdepth : around.length + 1 + d < maxDepth := by omega
    cases vs with
    | nil => exact .cons henter rfl
    | cons v vs =>
      -- the first item comes where the array could also end
      obtain ⟨hv, hvs⟩ := List.forall_mem_cons.mp ih
      have hfirst := (hv (.array [] :: around) hdepth).itemOrEnd
      exact .cons henter (hfirst.append (goes_items hvs hdepth))
  | @object d ms _ ih =>
    intro around hdepth
    have hroom : around.length + 1 < maxDepth := by omega
    have henter : step ⟨around, .value⟩ .openObject = some ⟨.object [] :: around, .nameOrEnd⟩ := if_pos hroom
    have hdepth : around.length + 1 + d < maxDepth := by omega
    cases ms with
    | nil => exact .cons henter rfl
    | cons m ms =>
      obtain ⟨hm, hms⟩ := List.forall_mem_cons.mp ih
      have hfirst := hm (.member [] m.1 :: around) hdepth
      exact .cons henter (.cons rfl (.cons rfl (hfirst.append (goes_members hms hdepth))))

end Reading

/-! ## Values in texts -/

section Text

variable {d : Nat} {v : Json} {space : List Char}

theorem Lexes.spaces (h : ∀ c ∈ space, isSpace c = true) : Lexes space [] := by
  induction space with
  | nil => exact .nil
  | cons c space ih =>
    obtain ⟨hc, hspace⟩ := List.forall_mem_cons.mp h
    exact (ih hspace).space hc

theorem not_isNumberPart_of_isSpace {c : Char} (h : isSpace c = true) : isNumberPart c = false := by
  simp only [isSpace, Bool.or_eq_true, beq_iff_eq] at h
  rcases h with ((rfl | rfl) | rfl) | rfl <;> decide

/-- A value is read back from its text, with any white space after it. -/
theorem read_write (h : Shallow d v) (hd : d < Reader.maxDepth)
    (hspace : ∀ c ∈ space, isSpace c = true) : read (write v ++ space) = some v := by
  have hend : EndsNumber space :=
    fun c hc => not_isNumberPart_of_isSpace (hspace c (List.mem_of_mem_head? hc))
  have htokens : tokens (write v ++ space) = some (tokensOf v ++ []) :=
    h.cuts _ _ hend (.spaces hspace) _ (Nat.le_refl _)
  have htake : (tokensOf v).foldlM Reader.step Reader.start = some ⟨[], .after v⟩ :=
    h.takes [] (by simpa using hd)
  simp [read, htokens, htake, Reader.finish?]

end Text

/-! ## Control characters -/

section Printable

theorem space_le_digitChar {n : Nat} (h : n < 16) : ' ' ≤ Nat.digitChar n := by
  have hall : ∀ d ∈ List.range 16, ' ' ≤ Nat.digitChar d := by decide
  exact hall n (List.mem_range.mpr h)

theorem space_le_of_all {text : List Char} (h : text.all (' ' ≤ ·) = true) :
    ∀ x ∈ text, ' ' ≤ x := by
  simpa using h

theorem Written.space_le {c : Char} {text : List Char} (h : Written c text) :
    ∀ x ∈ text, ' ' ≤ x := by
  cases h with
  | letter h hu hle => simpa using hle
  | number h =>
    have hlt : c.toNat < 32 := h
    simp only [controlEscape, List.forall_mem_cons]
    exact ⟨by decide, by decide, by decide, by decide, space_le_digitChar (by omega),
      space_le_digitChar (by omega), by simp⟩
  | plain hquote hbackslash hle => simpa using hle

theorem space_le_of_mem_quote (s : List Char) : ∀ x ∈ quote s, ' ' ≤ x := by
  have hbody : ∀ x ∈ s.flatMap escape, ' ' ≤ x := by
    intro x hx
    obtain ⟨c, -, hc⟩ := List.mem_flatMap.mp hx
    exact (written_escape c).space_le x hc
  rw [quote, List.cons_append, List.forall_mem_cons, List.forall_mem_append]
  exact ⟨by decide, hbody, space_le_of_all (by decide)⟩

theorem space_le_of_mem_writeItems {vs : List Json} (h : ∀ v ∈ vs, ∀ x ∈ write v, ' ' ≤ x) :
    ∀ x ∈ writeItems vs, ' ' ≤ x := by
  induction vs with
  | nil => simp [writeItems]
  | cons v vs ih =>
    obtain ⟨hv, hvs⟩ := List.forall_mem_cons.mp h
    rw [writeItems, List.cons_append, List.forall_mem_cons, List.forall_mem_append]
    exact ⟨by decide, hv, ih hvs⟩

theorem space_le_of_mem_writeMembers {ms : List (List Char × Json)}
    (h : ∀ m ∈ ms, ∀ x ∈ write m.2, ' ' ≤ x) : ∀ x ∈ writeMembers ms, ' ' ≤ x := by
  induction ms with
  | nil => simp [writeMembers]
  | cons m ms ih =>
    obtain ⟨hm, hms⟩ := List.forall_mem_cons.mp h
    simp only [writeMembers, List.cons_append, List.append_assoc, List.forall_mem_cons,
      List.forall_mem_append]
    exact ⟨by decide, space_le_of_mem_quote m.1, by decide, hm, ih hms⟩

/-- No control character stands in the text of a value. -/
theorem Shallow.space_le {d : Nat} {v : Json} (h : Shallow d v) : ∀ x ∈ write v, ' ' ≤ x := by
  induction h with
  | null => exact space_le_of_all (by decide)
  | bool b => cases b <;> exact space_le_of_all (by decide)
  | nat n =>
    intro x hx
    have hdigit : 48 ≤ x.toNat := (Text.toNat_of_isDigit (Text.isDigit_of_mem_decimal hx)).1
    exact Nat.le_trans (by decide : 32 ≤ 48) hdigit
  | string s => exact space_le_of_mem_quote s
  | @array d vs _ ih =>
    cases vs with
    | nil => exact space_le_of_all (by decide)
    | cons v vs =>
      obtain ⟨hv, hvs⟩ := List.forall_mem_cons.mp ih
      simp only [write, List.cons_append, List.append_assoc, List.forall_mem_cons,
        List.forall_mem_append]
      exact ⟨by decide, hv, space_le_of_mem_writeItems hvs, by decide, by simp⟩
  | @object d ms _ ih =>
    cases ms with
    | nil => exact space_le_of_all (by decide)
    | cons m ms =>
      obtain ⟨hm, hms⟩ := List.forall_mem_cons.mp ih
      simp only [write, List.cons_append, List.append_assoc, List.forall_mem_cons,
        List.forall_mem_append]
      exact ⟨by decide, space_le_of_mem_quote m.1, by decide, hm, space_le_of_mem_writeMembers hms,
        by decide, by simp⟩

end Printable

end SpanIndex.Json
