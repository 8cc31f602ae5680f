import SpanIndex.Proofs.Syntax.Recovery
import SpanIndex.Syntax.Node

/-!
# The syntax tree of a text

Every step of reading keeps the stack sound, so the tree that comes out is one of the text: its parts
follow each other without a gap, tokens are spelled as they must be, and phrases are made of what the
grammar says (`parse_root`). This holds of every text, whether it fits the grammar or not.
-/

namespace SpanIndex.Syntax

open Text

/-! ## One token -/

namespace Token

theorem spells_of_keyword? {word : List Char} {t : Terminal} (h : keyword? word = some t)
    (hword : isIdentifier word = true) : t.Spells word where
  identifier := fun _ => hword
  keyword := by
    intro spelling hmem
    have huniq : ∀ a ∈ Terminal.keywords, ∀ b ∈ Terminal.keywords, a.2 = b.2 → a.1 = b.1 := by
      decide
    exact huniq _ (mem_keywords_of_keyword? h) _ hmem rfl

theorem spells_identifier {word : List Char} (hword : isIdentifier word = true) :
    Terminal.identifier.Spells word where
  identifier := fun _ => hword
  keyword := by
    intro spelling hmem
    have hne : ∀ k ∈ Terminal.keywords, k.2 ≠ .identifier := by decide
    exact absurd rfl (hne _ hmem)

theorem spells_of_wordShaped {t : Terminal} {word : List Char} (h : WordShaped t word)
    (ht : t ≠ .identifier) : t.Spells word where
  identifier := fun he => absurd he ht
  keyword := by
    intro spelling hmem
    have hwords : ∀ k ∈ Terminal.keywords, k.2 ∈ Mode.words := by decide
    exact absurd (h (hwords _ hmem)).1 ht

end Token

namespace Reading

variable {text : List Char} {p : Place} {r x : Reading} {v w : Nat} {below : Option State}
  {token : Tree} {st : State}

/-- Any token will do where nothing that is expected can be read. -/
theorem reads_or_lost (hp : p.In text) (m : Mode) :
    (if (Token.scan m p).found.isSome then Token.scan m p else Token.scan .lost p).Reads text p := by
  split
  · exact Token.reads_scan hp m
  · exact Token.reads_scan hp .lost

theorem tokenAt_leaf {l : Label} {start stop : Place} (hp : p.In text) (hstart : start.In text)
    (hstop : stop.In text) (hle : p.index ≤ start.index) (hle' : start.index ≤ stop.index)
    (hl : (∃ t, l = .ofTerminal t ∧ t.Spells (start.textTo stop)) ∨ l = .error
      ∨ l = .endOfInput) : TokenAt text p (Tree.leaf l p start stop) where
  sound := .token ⟨hp, hstart, hstop, hle, hle', fun hx => Or.inr (Or.inr (beq_iff_eq.mp hx))⟩ rfl
      rfl <| by
    rcases hl with hl | rfl | rfl
    · exact Or.inl hl
    · exact Or.inr (Or.inl ⟨rfl, rfl⟩)
    · exact Or.inr (Or.inr rfl)
  before_eq := rfl
  leaf := rfl
  present := rfl
  production_eq := rfl
  extra_eq := rfl
  word := fun h => nomatch h

theorem tokenAt_tokenAt (hp : p.In text) (state : Option State) :
    TokenAt text p (tokenAt state p) := by
  unfold tokenAt
  extract_lets expected token token'
  have hreads : token'.Reads text p := reads_or_lost hp _
  split
  · obtain ⟨hin, hle⟩ := Token.skipUnreadable_in hreads.start_in rfl
    exact tokenAt_leaf hp hreads.start_in hin hreads.le_start hle (Or.inr (Or.inl rfl))
  · exact tokenAt_leaf hp hreads.start_in hreads.stop_in hreads.le_start hreads.start_le
      (Or.inr (Or.inr rfl))
  · next hfound =>
    have hword := (hreads.word _ hfound (by decide)).2
    split
    · exact tokenAt_leaf hp hreads.start_in hreads.stop_in hreads.le_start hreads.start_le
        (Or.inl ⟨.identifier, rfl, Token.spells_identifier hword⟩)
    · next t ht =>
      extract_lets isKeyword
      refine ⟨.token ⟨hp, hreads.start_in, hreads.stop_in, hreads.le_start, hreads.start_le,
        fun hx => nomatch hx⟩ rfl rfl (Or.inl ⟨_, rfl, ?_⟩), rfl, rfl, rfl, rfl, rfl,
        fun _ => hword⟩
      cases isKeyword with
      | true => exact Token.spells_of_keyword? ht hword
      | false => exact Token.spells_identifier hword
  · next t hne hfound =>
    exact tokenAt_leaf hp hreads.start_in hreads.stop_in hreads.le_start hreads.start_le
      (Or.inl ⟨t, rfl, Token.spells_of_wordShaped (hreads.word t hfound) hne⟩)

theorem asIdentifier_tokenAt (h : TokenAt text p token) (hk : token.facts.keyword = true)
    (hl : token.facts.label ≠ .endOfInput) : TokenAt text p (asIdentifier token) := by
  obtain ⟨f, cs⟩ := token
  obtain rfl : cs = [] := h.leaf
  have hplaced := h.sound.placed
  have hword : isIdentifier (f.start.textTo f.stop) = true := h.word hk
  have hextra : f.extra = false := h.extra_eq.trans (beq_eq_false_iff_ne.mpr hl)
  refine ⟨?_, h.before_eq, rfl, h.present, h.production_eq, hextra, fun _ => hword⟩
  exact .token ⟨hplaced.before_in, hplaced.start_in, hplaced.stop_in, hplaced.before_le,
    hplaced.start_le, fun hx => by rw [hextra] at hx; cases hx⟩ h.present h.production_eq
    (Or.inl ⟨.identifier, rfl, Token.spells_identifier hword⟩)

theorem Closed.closeBy {found : Reading × Option Nat} (h : Closed text r v found)
    (hr : r.Sound text) (hv : v < r.size) (hst : r.state v = some st) {a : State.Action}
    (ha : ∀ k, a = .reduce k → st.Closes k) : Closed text r v (closeBy v found a) := by
  cases a with
  | reduce k =>
    obtain ⟨hnew, hle⟩ := h.reduceNew hr hv hst (ha k rfl)
    rw [Reading.closeBy]
    generalize found.1.reduceNew v k = new at hnew hle
    refine ⟨hnew.sound, hnew.grows, fun w hw => ?_⟩
    cases hn : new.2 with
    | some u =>
      rw [hn] at hw
      cases hw
      exact hnew.new w hn
    | none =>
      rw [hn] at hw
      obtain ⟨h1, h2⟩ := h.new w hw
      exact ⟨h1, Nat.lt_of_lt_of_le h2 hle⟩
  | shift => exact h
  | shiftRepetition => exact h
  | accept => exact h

/-- Closing the productions of actions keeps the stack sound. -/
theorem Closed.foldl_closeBy {actions : List State.Action} {found : Reading × Option Nat}
    (h : Closed text r v found) (hr : r.Sound text) (hv : v < r.size) (hst : r.state v = some st)
    (hcloses : ∀ k, .reduce k ∈ actions → st.Closes k) :
    Closed text r v (actions.foldl (Reading.closeBy v) found) := by
  induction actions generalizing found with
  | nil => exact h
  | cons a actions ih =>
    rw [List.foldl_cons]
    refine ih (h.closeBy hr hv hst fun k hk => ?_) fun k hk =>
      hcloses k (List.mem_cons_of_mem _ hk)
    exact hcloses k (hk ▸ List.mem_cons_self)

theorem closes_of_mem_actionsAt (hst : st.Bounded) {l : Label} {k : Nat}
    (h : .reduce k ∈ actionsAt st l) : st.Closes k := by
  unfold actionsAt at h
  split at h
  · exact State.closes_of_reduce_mem hst h
  · exact State.closes_of_reduce_mem hst h
  · cases h

/-- A file is complete only at the end of the text. -/
theorem accept_mem_actionsAt (hst : st.Bounded) {l : Label} (h : .accept ∈ actionsAt st l) :
    l = .endOfInput ∧ ∃ k, st.Holds ⟨k, 1⟩ ∧ (Grammar.production k).head = .goal := by
  unfold actionsAt at h
  split at h
  · exact absurd (State.closes_of_accept_mem hst h).1 (fun hne => nomatch hne)
  · obtain ⟨-, k, hk, hhead⟩ := State.closes_of_accept_mem hst h
    have hsize : (Grammar.production k).steps.size = 1 := by
      rw [← Array.length_toList, Grammar.steps_of_goal hhead]
      rfl
    refine ⟨rfl, k, ?_, hhead⟩
    rcases hk with hk | hk
    · exact hsize ▸ hk
    · rw [hsize] at hk
      cases hk
  · cases h

/-- Where the production of a whole file has been read there is a file below. -/
theorem onFile_of_goal (h : r.Sound text) {k : Nat} (hk : (Grammar.production k).head = .goal) :
    r.OnFile fun n => n < r.frames.size ∧ HeldBy ⟨k, 1⟩ (r.frame n).state := by
  rintro n ⟨hn, st, hst, hi⟩ l hl
  have hjoin := h.joins n hn l hl
  cases ht : l.tree with
  | none =>
    rw [ht] at hjoin
    exact absurd (hjoin.2 st hst _ hi) Nat.one_ne_zero
  | some t =>
    rw [ht] at hjoin
    refine ⟨t, rfl, ?_⟩
    rcases hjoin.explains st hst _ hi Nat.one_pos with ⟨hx, hheld⟩ | ⟨hx, ⟨s, hs, hl'⟩, -⟩
    · exact Or.inl ⟨hx, h.below_lt n hn l hl, hheld⟩
    · have hfirst : some s = some (.category .sourceFile) :=
        hs.symm.trans (Grammar.symbol_of_goal hk)
      rw [Option.some.inj hfirst] at hl'
      obtain ⟨p, hphrase⟩ := hjoin.sound.isPhrase hl'
      exact Or.inr ⟨hx, Or.inr ⟨p, hl', hphrase.production_eq, hphrase.head_eq⟩,
        hphrase.filled.covers⟩

/-- A branch that has arisen from another one may take its place. -/
theorem Closed.stands_replaceBranch {found : Reading × Option Nat} (h : Closed text r v found)
    (hv : v < r.size) (hw : found.2 = some w) :
    (found.1.replaceBranch w v).Sound text
      ∧ ∃ y, Stands (found.1.replaceBranch w v) v (r.place v) y := by
  obtain ⟨hle, hlt⟩ := h.new w hw
  have hvw : v < w := Nat.lt_of_lt_of_le hv hle
  obtain ⟨hs, b, htop, hstatus, hd⟩ := replaceBranch_sound h.sound hvw hlt
  have hv' : v < found.1.size := Nat.lt_trans hvw hlt
  refine ⟨hs, _, ?_, ?_, ?_, rfl⟩
  · rw [hd.size_eq, size_setBranch]
    omega
  · rw [hd.status_lt v hvw, branch_setBranch hv', hstatus]
    exact h.grows.active w hle hlt
  · rw [hd.place_lt hvw]
    show (found.1.frame ((found.1.setBranch v b).branch v).top).place = _
    rw [branch_setBranch hv', htop]
    exact h.grows.place_eq w hle hlt

/-- A token leads to a state by its symbol. -/
theorem symbol_of_stateAfter {next : State} (h : stateAfter st token = some next) :
    ∃ s, token.facts.label = .symbol s ∧ st.advance s = some next := by
  unfold stateAfter at h
  split at h
  · next s hl => exact ⟨s, hl, h⟩
  · cases h

/-- A branch takes a token that it can be advanced by. -/
theorem Stands.shift_sound (hs : Stands r v p (some st)) (h : r.Sound text)
    (ht : TokenAt text p token) : (r.shift v st token).Sound text := by
  unfold shift
  split
  · next y hnext =>
    obtain ⟨s, hl, hadv⟩ := symbol_of_stateAfter hnext
    have hextra : token.facts.extra = false := by
      rw [ht.extra_eq, hl]
      rfl
    exact (hs.push h (fits_advance hadv ht.sound ht.before_eq hl hextra) fun z hz =>
      Option.some.inj hz ▸ State.Bounded.advance hadv).1
  · exact h.setStatus fun _ hp => nomatch hp

theorem keyword_of_canBeIdentifier (h : canBeIdentifier st token = true) :
    token.facts.keyword = true ∧ token.facts.label ≠ .endOfInput := by
  unfold canBeIdentifier at h
  split at h
  · next t hl =>
    simp only [Bool.and_eq_true] at h
    exact ⟨h.1.1.1, by rw [hl]; exact fun hne => nomatch hne⟩
  · cases h

theorem readToken_sound (fuel : Nat) : ∀ {token : Tree} {r : Reading} {below : Option State},
    r.Sound text → Stands r v p below → TokenAt text p token →
    (readToken v fuel token r).Sound text := by
  induction fuel with
  | zero => intro token r below h _ _; exact h.setStatus fun _ hp => nomatch hp
  | succ fuel ih =>
    intro token r below h hs ht
    rw [readToken]
    split
    · exact recover_sound h hs ht
    · next st hst =>
      have hst' : below = some st := hs.state_eq.symm.trans hst
      subst hst'
      have hbounded := h.state_bounded hst
      extract_lets label actions found
      split
      · -- a comment is set apart and the state stays
        next hc =>
        have hfits := fits_extra (ht.sound.asExtra (beq_iff_eq.mp hc)) (Tree.extra_asExtra token)
          ((Tree.before_asExtra token).trans ht.before_eq)
          fun st' hst' i hi _ => (⟨st', hst', hi⟩ : HeldBy i (some st))
        exact (hs.push h hfits fun y hy => Option.some.inj hy ▸ hbounded).1
      · split
        · next hacc =>
          obtain ⟨hend, k, hk, hhead⟩ := accept_mem_actionsAt hbounded
            (List.contains_iff_mem.mp hacc)
          refine accept_sound _ h hs ht ?_ (onFile_of_goal h hhead)
            ⟨h.branch_top_lt v, st, hst, hk⟩
          rw [ht.extra_eq]
          exact beq_iff_eq.mpr hend
        · have hclosed : Closed text r v found :=
            (closed_start h v).foldl_closeBy h hs.lt_size hst fun k hk =>
              closes_of_mem_actionsAt hbounded hk
          have hstands : Stands found.1 v p (some st) :=
            hclosed.grows.keeps.stands h hs hs.lt_size
          split
          · exact hstands.shift_sound hclosed.sound ht
          · split
            · -- the branch of the last production that was closed reads the token in its place
              next w hw =>
              obtain ⟨hx, y, hy⟩ := hclosed.stands_replaceBranch hs.lt_size hw
              exact ih hx (hs.place_eq ▸ hy) ht
            · split
              · exact hclosed.sound.setStatus fun _ hp => nomatch hp
              · split
                · next hcan =>
                  obtain ⟨hk, hne⟩ := keyword_of_canBeIdentifier hcan
                  exact ih hclosed.sound hstands (asIdentifier_tokenAt ht hk hne)
                · refine hclosed.sound.setStatus fun t hp => ?_
                  cases hp
                  exact hstands.place_eq ▸ ht

theorem stands_of_isActive (hv : r.isActive v = true) : Stands r v (r.place v) (r.state v) := by
  refine ⟨lt_size_of_isActive hv, ?_, rfl, rfl⟩
  unfold isActive Status.isActive at hv
  split at hv
  · assumption
  · cases hv

theorem readNext_sound (h : r.Sound text) (hv : r.isActive v = true) :
    (r.readNext v).Sound text :=
  readToken_sound _ h (stands_of_isActive hv) (tokenAt_tokenAt (h.place_in' v) _)

/-! ## One round -/

theorem readRound_sound (fuel : Nat) : ∀ {v : Nat} {r : Reading}, r.Sound text →
    (readRound fuel v r).Sound text := by
  induction fuel with
  | zero => intro v r h; exact h
  | succ fuel ih =>
    intro v r h
    rw [readRound]
    split
    · exact h
    · split
      · next hv =>
        have hx := readNext_sound h hv
        extract_lets x here
        split
        · exact ih (hx.of_sublist rfl rfl fun _ hb => hb)
        · exact ih hx
      · exact ih h

theorem compareWithEarlier_sound {s : Standing} (fuel : Nat) : ∀ {w v : Nat} {r : Reading},
    r.Sound text → (compareWithEarlier s fuel w v r).1.Sound text := by
  induction fuel with
  | zero => intro w v r h; exact h
  | succ fuel ih =>
    intro w v r h
    rw [compareWithEarlier]
    split
    · exact h
    · split
      · exact h.removeBranch v
      · split
        · next hm => exact (merge?_sound h hm).1
        · exact ih h
      · split
        · next hm => exact (merge?_sound h hm).1
        · exact ih h
      · split
        · next hm => exact (merge?_sound h hm).1
        · exact ih ((h.setBranch (h.branch v)).setBranch (h.branch w))
      · exact ih (h.removeBranch w)

theorem prune_sound (fuel : Nat) : ∀ {v : Nat} {best : Option Nat} {r : Reading}, r.Sound text →
    (prune fuel v best r).1.Sound text := by
  induction fuel with
  | zero => intro v best r h; exact h
  | succ fuel ih =>
    intro v best r h
    rw [prune]
    split
    · exact h
    · split
      · exact ih (h.removeBranch v)
      · exact ih (compareWithEarlier_sound _ h)

/-- A branch that is resumed stands where it was. -/
theorem stands_resumed (hv : v < r.size) :
    Stands (r.setStatus v .active) v (r.place v) (r.state v) := by
  refine ⟨?_, ?_, ?_, ?_⟩
  · rw [setStatus, size_setBranch]; exact hv
  · rw [setStatus, branch_setBranch hv]
  · show (r.frame ((r.setBranch v _).branch v).top).place = _
    rw [branch_setBranch hv]
    rfl
  · show (r.frame ((r.setBranch v _).branch v).top).state = _
    rw [branch_setBranch hv]
    rfl

theorem resume_sound (fuel : Nat) : ∀ {v : Nat} {running : Bool} {best : Option Nat}
    {r : Reading}, r.Sound text → (resume fuel v running best r).1.Sound text := by
  induction fuel with
  | zero => intro v running best r h; exact h
  | succ fuel ih =>
    intro v running best r h
    rw [resume]
    split
    · exact h
    · next hlt =>
      have hv : v < r.size := Nat.lt_of_not_le hlt
      split
      · next token hpaused =>
        split
        · extract_lets cost older x later branches
          have hx : x.Sound text := handleError_sound (h.setStatus fun _ hp => nomatch hp)
            (stands_resumed hv) ((h.branch v).2 token hpaused)
          refine hx.of_sublist rfl rfl fun b hb => ?_
          rw [List.mem_append, List.mem_append, List.mem_filter] at hb
          rcases hb with (hb | ⟨hb, -⟩) | hb
          · exact List.mem_of_mem_take hb
          · exact List.mem_of_mem_take (List.mem_of_mem_drop hb)
          · exact List.mem_of_mem_drop hb
        · exact ih (h.removeBranch v)
      · exact ih h

theorem condense_sound (h : r.Sound text) : r.condense.1.Sound text := by
  unfold condense
  exact resume_sound _ ((prune_sound _ h).of_sublist rfl rfl fun b hb => List.mem_of_mem_take hb)

/-! ## The whole text -/

theorem start_sound (text : List Char) : (Reading.start text).Sound text := by
  have hframe : ∀ n, n < (Reading.start text).frames.size →
      (Reading.start text).frame n = ⟨some State.start, Place.start text, [], 0, 0, 0⟩ := by
    intro n hn
    obtain rfl : n = 0 := Nat.lt_one_iff.mp hn
    rfl
  have hbranch : ∀ b ∈ (Reading.start text).branches, b = ⟨0, 0, .active, none⟩ := fun b hb =>
    List.mem_singleton.mp hb
  refine ⟨Nat.one_pos, ?_, ?_, ?_, ?_, ?_, ?_, fun t ht => nomatch ht⟩
  · intro n hn
    rw [hframe n hn]
    exact Place.start_in text
  · intro n hn st hst
    rw [hframe n hn] at hst
    exact Option.some.inj hst ▸ State.bounded_start
  · intro n hn l hl
    rw [hframe n hn] at hl
    cases hl
  · intro n hn l hl
    rw [hframe n hn] at hl
    cases hl
  · intro b hb
    rw [hbranch b hb]
    exact Nat.one_pos
  · intro b hb t ht
    rw [hbranch b hb] at ht
    cases ht

theorem readAll_root (fuel : Nat) : ∀ {r : Reading} {t : Tree}, r.Sound text →
    readAll fuel r = some t → t.Root text := by
  induction fuel with
  | zero => intro r t h ht; exact h.root t ht
  | succ fuel ih =>
    intro r t h ht
    rw [readAll] at ht
    have hround := condense_sound (readRound_sound (64 * (r.size + 4)) (v := 0) h)
    split at ht
    · next t' hfinished =>
      split at ht
      · cases ht
        exact hround.root t hfinished
      · exact ih hround ht
    · split at ht
      · cases ht
      · exact ih hround ht

end Reading

/-- The tree of a text is sound, whatever the text is. -/
theorem parse_root (text : List Char) : (parse text).Root text := by
  unfold parse
  cases h : (Reading.start text).readAll (roundFuel text) with
  | none =>
    have hp := Place.start_in text
    exact ⟨⟨hp, hp, hp, Nat.le_refl _, Nat.le_refl _, fun hx => nomatch hx⟩, rfl,
      (fun _ hc => nomatch hc), Or.inl ⟨rfl, rfl⟩⟩
  | some t => exact Reading.readAll_root _ (Reading.start_sound text) h

end SpanIndex.Syntax
