import Mathlib.Data.List.Forall2
import SpanIndex.CommandLine.Arguments

/-!
# The two spellings of the source option

The path of the source file may be given after `--src` or `-src`, in the next argument or behind `=` in the same.
Arguments with one dash are respelled before they are read, but only if they are text. So a path that is no text and
stands in the same argument as `-src` goes astray: what is read is the letter `s`, and `rc=` becomes the beginning of
the path.

Two lists of arguments that differ in the spelling are read side by side. They have the same outcome up to the first
path that goes astray. From there on only the path differs, since no argument looks at it or can give it again.
-/

namespace SpanIndex

/-! ## Texts that begin with a plain character -/

theorem Text.isSome_decode?_cons {b : UInt8} (hb : b < 0x80) (bytes : Bytes) :
    (decode? (b :: bytes)).isSome = (decode? bytes).isSome := by
  rw [decode?, pieces, if_pos hb, List.mapM_cons, Piece.char?]
  cases h : (pieces bytes).mapM Piece.char? with
  | none => simp [decode?, h]
  | some text => simp [decode?, h]

theorem Text.isSome_decode?_append {plain : Bytes} (h : ∀ b ∈ plain, b < 0x80) (bytes : Bytes) :
    (decode? (plain ++ bytes)).isSome = (decode? bytes).isSome := by
  induction plain with
  | nil => rfl
  | cons b plain ih =>
    obtain ⟨hb, hplain⟩ := List.forall_mem_cons.mp h
    rw [List.cons_append, isSome_decode?_cons hb, ih hplain]

namespace CommandLine

open Text (Bytes decode?)

/-! ## Spellings -/

/-- The source option with two dashes and its value. -/
def longSource (value : Bytes) : Bytes := bytesOf "--src=" ++ value

/-- The source option with one dash and its value. -/
def shortSource (value : Bytes) : Bytes := bytesOf "-src=" ++ value

/-- What is read of the value where it goes astray. -/
def strayed (value : Bytes) : Bytes := bytesOf "rc=" ++ value

/-- The second argument is the first one, or the source option in it has lost a dash. -/
inductive OneDashed : Bytes → Bytes → Prop
  | same (argument : Bytes) : OneDashed argument argument
  | option : OneDashed (bytesOf "--src") (bytesOf "-src")
  | value (v : Bytes) : OneDashed (longSource v) (shortSource v)

theorem strayed_ne (v : Bytes) : strayed v ≠ v := by
  intro h
  have hlength := congrArg List.length h
  rw [strayed, List.length_append] at hlength
  have hpositive : (bytesOf "rc=").length = 3 := by decide
  omega

theorem respell_longSource (v : Bytes) : respell (longSource v) = longSource v := by
  have hoption : longSource v ≠ bytesOf "-src" := by
    intro h
    have hsecond := congrArg (fun bytes => bytes.tail.head?) h
    exact absurd (show some dash = some 115 from hsecond) (by decide)
  have hprefix : (bytesOf "-src=").isPrefixOf (longSource v) = false := rfl
  rw [respell, hprefix, decide_eq_false hoption, Bool.or_false, Bool.and_false, if_neg Bool.false_ne_true]

theorem respell_shortSource (v : Bytes) :
    respell (shortSource v) = if (decode? v).isSome then longSource v else shortSource v := by
  have hplain : ∀ b ∈ bytesOf "-src=", b < 0x80 := by
    have hall : (bytesOf "-src=").all (· < 0x80) = true := by decide
    exact fun b hb => of_decide_eq_true (List.all_eq_true.mp hall b hb)
  have hprefix : (bytesOf "-src=").isPrefixOf (shortSource v) = true :=
    List.isPrefixOf_iff_prefix.mpr (List.prefix_append _ v)
  have htext : (decode? (shortSource v)).isSome = (decode? v).isSome :=
    Text.isSome_decode?_append hplain v
  rw [respell, htext, hprefix, Bool.or_true, Bool.and_true]
  rfl

theorem take_longSource (p : Progress) (v : Bytes) : take p (longSource v) = p.attach .src v := rfl

theorem take_shortSource (p : Progress) (v : Bytes) :
    take p (shortSource v) = p.attach .src (strayed v) := rfl

/-! ## Outcomes side by side -/

/-- Two outcomes that fail alike, or whose results are related. -/
inductive Alike {ε α β : Type} (R : α → β → Prop) : Except ε α → Except ε β → Prop
  | failed (e : ε) : Alike R (.error e) (.error e)
  | result {a : α} {b : β} (h : R a b) : Alike R (.ok a) (.ok b)

namespace Alike

variable {ε ε' α β γ δ : Type} {R : α → β → Prop} {S : γ → δ → Prop} {x : Except ε α} {y : Except ε β}

theorem bind {f : α → Except ε γ} {g : β → Except ε δ} (h : Alike R x y)
    (hfg : ∀ a b, R a b → Alike S (f a) (g b)) : Alike S (x >>= f) (y >>= g) := by
  cases h with
  | failed e => exact .failed e
  | result h => exact hfg _ _ h

theorem mapError (f : ε → ε') (h : Alike R x y) : Alike R (x.mapError f) (y.mapError f) := by
  cases h with
  | failed e => exact .failed (f e)
  | result h => exact .result h

theorem refl {R : α → α → Prop} (h : ∀ a, R a a) (x : Except ε α) : Alike R x x := by
  cases x with
  | error e => exact .failed e
  | ok a => exact .result (h a)

theorem mono {S : α → β → Prop} (hRS : ∀ a b, R a b → S a b) (h : Alike R x y) : Alike S x y := by
  cases h with
  | failed e => exact .failed e
  | result h => exact .result (hRS _ _ h)

theorem map_same (x : Except ε γ) {f : γ → α} {g : γ → β} (h : ∀ c, R (f c) (g c)) :
    Alike R (x.map f) (x.map g) := by
  cases x with
  | error e => exact .failed e
  | ok c => exact .result (h c)

end Alike

/-- Arguments that differ in the path of the source file: the value of the first went astray in the second. -/
structure Arguments.Strays (v : Bytes) (a b : Arguments) : Prop where
  src_eq : a.src = some v
  eq : b = { a with src := some (strayed v) }

namespace Arguments.Strays

variable {v : Bytes} {a b : Arguments}

/-- The path cannot be given again, whatever it is. -/
theorem give_source (h : a.Strays v b) (x y : Bytes) :
    Alike (Strays v) (a.give .src x) (b.give .src y) := by
  have ha : a.has .src = true := by rw [has, h.src_eq]; rfl
  have hb : b.has .src = true := by rw [h.eq]; rfl
  rw [Arguments.give, Arguments.give, if_pos ha, if_pos hb]
  exact .failed _

theorem give (h : a.Strays v b) (s : Setting) (x : Bytes) :
    Alike (Strays v) (a.give s x) (b.give s x) := by
  have hassign : s ≠ .src → b.has s = a.has s ∧ Alike (Strays v) (a.assign s x) (b.assign s x) := by
    obtain ⟨hsrc, rfl⟩ := h
    intro hs
    cases s with
    | src => exact absurd rfl hs
    | format => exact ⟨rfl, .map_same _ fun _ => ⟨hsrc, rfl⟩⟩
    | taxonomy => exact ⟨rfl, .map_same _ fun _ => ⟨hsrc, rfl⟩⟩
    | line => exact ⟨rfl, .map_same _ fun _ => ⟨hsrc, rfl⟩⟩
    | config =>
      refine ⟨rfl, ?_⟩
      rw [assign, assign]
      split
      · exact .failed _
      · exact .result ⟨hsrc, rfl⟩
  by_cases hs : s = .src
  · rw [hs]
    exact h.give_source x x
  · obtain ⟨hhas, halike⟩ := hassign hs
    rw [Arguments.give, Arguments.give, hhas]
    split
    · exact .failed _
    · exact halike

theorem turnOn (h : a.Strays v b) (s : Switch) : Alike (Strays v) (a.turnOn s) (b.turnOn s) := by
  obtain ⟨hsrc, rfl⟩ := h
  cases s <;>
  · rw [Arguments.turnOn, Arguments.turnOn]
    split
    · exact .failed _
    · exact .result ⟨hsrc, rfl⟩

end Arguments.Strays

/-- The same of arguments that have been read in part. -/
structure Progress.Strays (v : Bytes) (p q : Progress) : Prop where
  given : p.given.Strays v q.given
  pending_eq : q.pending = p.pending

namespace Progress.Strays

variable {v : Bytes} {p q : Progress}

theorem settle (h : p.Strays v q) : Alike (Arguments.Strays v) p.settle q.settle := by
  rw [Progress.settle, Progress.settle, h.pending_eq]
  cases p.pending with
  | nothing => exact .result h.given
  | awaiting s => exact .failed _
  | held s x => exact (h.given.give s x).mapError _

theorem attach (h : p.Strays v q) (s : Setting) (x : Bytes) :
    Alike (Progress.Strays v) (p.attach s x) (q.attach s x) :=
  h.settle.bind fun _ _ hgiven => ((hgiven.give s x).mapError _).bind fun _ _ hgiven =>
    .result ⟨hgiven, rfl⟩

theorem attach_source (h : p.Strays v q) (x y : Bytes) :
    Alike (Progress.Strays v) (p.attach .src x) (q.attach .src y) :=
  h.settle.bind fun _ _ hgiven => ((hgiven.give_source x y).mapError _).bind fun _ _ hgiven =>
    .result ⟨hgiven, rfl⟩

theorem await (h : p.Strays v q) (s : Setting) : Alike (Progress.Strays v) (p.await s) (q.await s) :=
  h.settle.bind fun _ _ hgiven => .result ⟨hgiven, rfl⟩

theorem trigger (h : p.Strays v q) (f : Flag) :
    Alike (Progress.Strays v) (p.trigger f) (q.trigger f) := by
  refine h.settle.bind fun a b hgiven => ?_
  cases f with
  | setting s => exact .result ⟨hgiven, rfl⟩
  | switch s => exact ((hgiven.turnOn s).mapError _).bind fun _ _ hgiven => .result ⟨hgiven, rfl⟩
  | help => exact .failed _
  | version => exact .failed _

theorem takeLong (h : p.Strays v q) (body : Bytes) :
    Alike (Progress.Strays v) (takeLong p body) (takeLong q body) := by
  unfold CommandLine.takeLong
  extract_lets name value
  split
  · exact .failed _
  · exact h.attach _ _
  · exact h.await _
  · exact .failed _
  · exact h.trigger _

theorem takeShort (h : p.Strays v q) (letters : Bytes) :
    Alike (Progress.Strays v) (takeShort p letters) (takeShort q letters) := by
  induction letters generalizing p q with
  | nil => exact .result h
  | cons b rest ih =>
    rw [CommandLine.takeShort, CommandLine.takeShort]
    split
    · exact .failed _
    · split
      · exact h.await _
      · exact h.attach _ _
    · exact (h.trigger _).bind fun _ _ h => ih h

theorem take (h : p.Strays v q) (argument : Bytes) :
    Alike (Progress.Strays v) (take p argument) (take q argument) := by
  have hvalue : Alike (Progress.Strays v) (takeValue p argument) (takeValue q argument) := by
    rw [takeValue, takeValue, h.pending_eq]
    split
    · exact .result ⟨h.given, rfl⟩
    · exact .failed _
  unfold CommandLine.take
  split
  · split_ifs
    · exact h.takeLong _
    · exact h.takeShort _
    · exact hvalue
  · exact hvalue

end Progress.Strays

/-! ## Arguments in two spellings -/

theorem readFrom_cons (p : Progress) (argument : Bytes) (rest : List Bytes) :
    readFrom p (argument :: rest)
      = if argument = [dash, dash] then
          if rest.isEmpty then p.settle else stopWith .unknownArgument
        else take p argument >>= (readFrom · rest) := by
  rw [readFrom]
  cases take p argument <;> rfl

theorem readFrom_of_length {argument : Bytes} (h : 2 < argument.length) (p : Progress)
    (rest : List Bytes) : readFrom p (argument :: rest) = take p argument >>= (readFrom · rest) := by
  have hne : argument ≠ [dash, dash] := by
    rintro rfl
    exact absurd h (by decide)
  rw [readFrom_cons, if_neg hne]

theorem length_longSource (v : Bytes) : (longSource v).length = 6 + v.length := List.length_append

theorem length_shortSource (v : Bytes) : (shortSource v).length = 5 + v.length := List.length_append

theorem readFrom_longSource (p : Progress) (v : Bytes) (rest : List Bytes) :
    readFrom p (respell (longSource v) :: rest) = p.attach .src v >>= (readFrom · rest) := by
  have hlength := length_longSource v
  rw [respell_longSource, readFrom_of_length (by omega), take_longSource]

/-- A value that is no text goes astray. -/
theorem readFrom_shortSource {v : Bytes} (hv : decode? v = none) (p : Progress) (rest : List Bytes) :
    readFrom p (respell (shortSource v) :: rest) = p.attach .src (strayed v) >>= (readFrom · rest) := by
  have hlength := length_shortSource v
  rw [respell_shortSource, hv, Option.isSome_none, if_neg Bool.false_ne_true,
    readFrom_of_length (by omega), take_shortSource]

section Reading

variable {as bs : List Bytes} {a b : Bytes} {p q : Progress} {v : Bytes}

/-- Respelling makes two spellings equal unless a value goes astray. -/
theorem OneDashed.respell_eq (h : OneDashed a b) :
    respell b = respell a
      ∨ ∃ v, a = longSource v ∧ b = shortSource v ∧ decode? v = none := by
  cases h with
  | same a => exact Or.inl rfl
  | option => exact Or.inl (by decide +kernel)
  | value v =>
    rw [respell_longSource, respell_shortSource]
    split_ifs with hv
    · exact Or.inl rfl
    · exact Or.inr ⟨v, rfl, rfl, Option.not_isSome_iff_eq_none.mp hv⟩

/-- Once a path has gone astray, only the path differs. -/
theorem Progress.Strays.readFrom (h : p.Strays v q) (hab : List.Forall₂ OneDashed as bs) :
    Alike (Arguments.Strays v) (readFrom p (as.map respell)) (readFrom q (bs.map respell)) := by
  induction hab generalizing p q with
  | nil => exact h.settle
  | cons hab hrest ih =>
    rw [List.map_cons, List.map_cons]
    rcases hab.respell_eq with heq | ⟨w, rfl, rfl, hw⟩
    · rw [heq, readFrom_cons, readFrom_cons]
      split
      · cases hrest with
        | nil => exact h.settle
        | cons _ _ => exact .failed _
      · exact (h.take _).bind fun _ _ h => ih h
    · rw [readFrom_longSource, readFrom_shortSource hw]
      exact (h.attach_source _ _).bind fun _ _ h => ih h

/-- A path that is given for the first time may go astray. -/
theorem strays_attach (p : Progress) (v : Bytes) :
    Alike (Progress.Strays v) (p.attach .src v) (p.attach .src (strayed v)) := by
  refine (Alike.refl (fun _ => rfl) p.settle).bind ?_
  rintro a _ rfl
  rw [Arguments.give, Arguments.give]
  split
  · exact .failed _
  · exact .result ⟨⟨rfl, rfl⟩, rfl⟩

/-- The results of two spellings, whose arguments are put together in `pairs`: they are the same if no value goes
astray, and otherwise the path is one that did. -/
inductive Compared (pairs : List (Bytes × Bytes)) (a b : Arguments) : Prop
  | same (texts : ∀ v, (longSource v, shortSource v) ∈ pairs → (decode? v).isSome) (eq : b = a)
  | astray {v : Bytes} (mem : (longSource v, shortSource v) ∈ pairs) (noText : decode? v = none)
      (strays : a.Strays v b)

/-- Where the spellings become equal the value is a text. -/
theorem isSome_of_respell_eq (h : respell (shortSource v) = respell (longSource v)) :
    (decode? v).isSome := by
  by_contra hv
  rw [respell_longSource, respell_shortSource, if_neg hv] at h
  have hlength := congrArg List.length h
  rw [length_longSource, length_shortSource] at hlength
  omega

theorem Compared.cons {pairs : List (Bytes × Bytes)} {c d : Arguments} (h : Compared pairs c d)
    (heq : respell b = respell a) : Compared ((a, b) :: pairs) c d := by
  cases h with
  | same texts eq =>
    refine .same (fun v hv => ?_) eq
    rcases List.mem_cons.mp hv with hpair | hv
    · cases hpair
      exact isSome_of_respell_eq heq
    · exact texts v hv
  | astray mem noText strays => exact .astray (List.mem_cons_of_mem _ mem) noText strays

theorem compared_readFrom (hab : List.Forall₂ OneDashed as bs) :
    Alike (Compared (as.zip bs)) (readFrom p (as.map respell)) (readFrom p (bs.map respell)) := by
  induction hab generalizing p with
  | nil => exact .refl (fun _ => .same nofun rfl) _
  | cons hab hrest ih =>
    rw [List.map_cons, List.map_cons, List.zip_cons_cons]
    rcases hab.respell_eq with heq | ⟨v, rfl, rfl, hv⟩
    · refine Alike.mono (fun _ _ h => Compared.cons h heq) ?_
      rw [heq, readFrom_cons, readFrom_cons]
      split
      · cases hrest with
        | nil => exact ih
        | cons _ _ => exact .failed _
      · exact (Alike.refl (fun _ => rfl) _).bind fun _ _ h => h ▸ ih
    · rw [readFrom_longSource, readFrom_shortSource hv]
      refine (strays_attach p v).bind fun _ _ h => ?_
      exact (h.readFrom hrest).mono fun _ _ h => .astray List.mem_cons_self hv h

/-- Whether the source option has one dash or two makes no difference to what stops the reading. It makes none to
the arguments either as long as the values that stand in the same argument with it are texts; if one is not, the
path is not the one that was given. -/
theorem read_oneDashed (h : List.Forall₂ OneDashed as bs) :
    (∀ stop, Arguments.read bs = .error stop ↔ Arguments.read as = .error stop)
      ∧ (Arguments.read bs = Arguments.read as
        ↔ (∃ stop, Arguments.read as = .error stop)
          ∨ ∀ v, (longSource v, shortSource v) ∈ as.zip bs → (decode? v).isSome)
      ∧ ∀ c, Arguments.read as = .ok c → Arguments.read bs ≠ .ok c →
        ∃ v, (longSource v, shortSource v) ∈ as.zip bs ∧ c.src = some v
          ∧ Arguments.read bs = .ok { c with src := some (bytesOf "rc=" ++ v) } := by
  have halike : Alike (Compared (as.zip bs)) (Arguments.read as) (Arguments.read bs) :=
    compared_readFrom h
  generalize Arguments.read as = x at halike ⊢
  generalize Arguments.read bs = y at halike ⊢
  cases halike with
  | failed e => simp
  | @result c d hcompared =>
    have hstop : ∀ stop : Stop, (Except.ok d : Except Stop Arguments) = .error stop
        ↔ (Except.ok c : Except Stop Arguments) = .error stop := fun _ => ⟨nofun, nofun⟩
    refine ⟨hstop, ?_, ?_⟩
    · cases hcompared with
      | same texts eq => exact ⟨fun _ => Or.inr texts, fun _ => congrArg _ eq⟩
      | @astray v mem noText strays =>
        constructor
        · intro heq
          have hpath : some (strayed v) = some v := by
            rw [← strays.src_eq, ← Except.ok.inj heq, strays.eq]
          exact absurd (Option.some.inj hpath) (strayed_ne v)
        · rintro (⟨stop, hstop⟩ | htexts)
          · cases hstop
          · have hv := htexts v mem
            rw [noText] at hv
            cases hv
    · intro c' hc hne
      cases hc
      cases hcompared with
      | same texts eq => exact absurd (congrArg _ eq) hne
      | @astray v mem noText strays => exact ⟨v, mem, strays.src_eq, congrArg _ strays.eq⟩

/-- A byte that is no text. -/
def oddPath : Bytes := [0xFF]

theorem read_oneDashed_oddPath :
    List.Forall₂ OneDashed [bytesOf "-q", longSource oddPath] [bytesOf "-q", shortSource oddPath]
      ∧ Arguments.read [bytesOf "-q", longSource oddPath] = .ok { src := some oddPath, quiet := true }
      ∧ Arguments.read [bytesOf "-q", shortSource oddPath]
        = .ok { src := some (bytesOf "rc=" ++ oddPath), quiet := true } := by
  have hspelled : List.Forall₂ OneDashed [bytesOf "-q", longSource oddPath]
      [bytesOf "-q", shortSource oddPath] := .cons (.same _) (.cons (.value _) .nil)
  have hlong : Arguments.read [bytesOf "-q", longSource oddPath]
      = .ok { src := some oddPath, quiet := true } := by decide +kernel
  obtain ⟨v, -, hsrc, hread⟩ := (read_oneDashed hspelled).2.2 _ hlong (by decide +kernel)
  obtain rfl : oddPath = v := Option.some.inj hsrc
  exact ⟨hspelled, hlong, hread⟩

/-- The path is not the one that was given. -/
theorem read_shortSource_ne :
    OneDashed (longSource oddPath) (shortSource oddPath)
      ∧ Arguments.read [longSource oddPath] = .ok { src := some oddPath }
      ∧ Arguments.read [shortSource oddPath] = .ok { src := some (bytesOf "rc=" ++ oddPath) }
      ∧ Arguments.read [shortSource oddPath] ≠ Arguments.read [longSource oddPath] :=
  ⟨.value _, by decide +kernel, by decide +kernel, by decide +kernel⟩

end Reading

end CommandLine

end SpanIndex
