import ExprLang.Proofs.MaximalMunch

/-! Tokens and the gaps between them. A text is a token of one kind at most, it does not begin like a gap, and a blank behind
it ends it. So a text that is divided into tokens and gaps is read as these tokens. -/

namespace ExprLang

def Text.blanks : List UInt8 := [0x20, 0x09, 0x0D, 0x0A]

/-- Blanks, and comments that a line break ends. -/
inductive Spacing : Text → Prop
  | nil : Spacing []
  | blank {b : UInt8} {more : Text} : b ∈ Text.blanks → Spacing more → Spacing (b :: more)
  | comment {body more : Text} : 0x0A ∉ body → Spacing more → Spacing (0x2F :: 0x2F :: (body ++ 0x0A :: more))

theorem Longest.unique {P : Text → Prop} {text found other : Text} (first : Longest P text found)
    (second : Longest P text other) : found = other := by
  have size : found.length = other.length :=
    Nat.le_antisymm (second.longest _ first.front first.holds) (first.longest _ second.front second.holds)
  exact (List.prefix_of_prefix_length_le first.front second.front (Nat.le_of_eq size)).eq_of_length size

namespace Text

theorem afterBlanks_blank {b : UInt8} (blank : b ∈ blanks) (t : Text) : afterBlanks false (b :: t) = afterBlanks false t := by
  simp only [blanks, List.mem_cons, List.not_mem_nil, or_false] at blank
  rcases blank with rfl | rfl | rfl | rfl <;> rfl

theorem afterBlanks_spacing {gap : Text} (spacing : Spacing gap) (t : Text) :
    afterBlanks false (gap ++ t) = afterBlanks false t := by
  induction spacing with
  | nil => rfl
  | blank blank _ ih => rw [List.cons_append, afterBlanks_blank blank, ih]
  | @comment body more inside _ ih =>
    have opened : afterBlanks false (0x2F :: 0x2F :: (body ++ 0x0A :: more) ++ t) =
        afterBlanks true (body ++ 0x0A :: (more ++ t)) := by
      simp [afterBlanks]
    rw [opened, afterBlanks_comment inside, ← ih]
    rfl

/-- Skipping stops at a byte that is no blank, unless a comment begins there. -/
theorem afterBlanks_stops {b : UInt8} {t : Text} (blank : b ∉ blanks) (apart : b = 0x2F → t.head? ≠ some 0x2F) :
    afterBlanks false (b :: t) = b :: t := by
  simp only [blanks, List.mem_cons, List.not_mem_nil, or_false, not_or] at blank
  obtain ⟨space, tab, back, line⟩ := blank
  rw [afterBlanks, if_neg line, if_neg (by simp [space, tab, back]), if_neg]
  simpa using apart

theorem exists_glyphs {s : Text} (nonempty : s ≠ []) : ∃ g gs, s.glyphs = g :: gs := by
  apply List.exists_cons_of_ne_nil
  intro none
  have spelt := s.spell_glyphs
  rw [none] at spelt
  exact nonempty spelt.symm

end Text

namespace Glyph

theorem Form.char_of_byte {g : Glyph} (form : g.Form) {b : UInt8} (member : b ∈ g.bytes) (low : b.toNat < 0x80) :
    g.char = Char.ofNat b.toNat := by
  have same : (Char.ofNat b.toNat).toNat = b.toNat := val_ofNat (by unfold Nat.isValidChar; omega)
  rw [form.char_eq_iff (by rw [same]; exact low) member, same, UInt8.ofNat_toNat]

/-- No token begins with a blank, and none but strings contain one. -/
theorem blank_outside {b : UInt8} (blank : b ∈ Text.blanks) :
    b.toNat < 0x80 ∧ (ofChar (Char.ofNat b.toNat)).opening = .none ∧
      (ofChar (Char.ofNat b.toNat)).continuesWord = false ∧ Text.isDigit b = false ∧ b ≠ 0x2E := by
  simp only [Text.blanks, List.mem_cons, List.not_mem_nil, or_false] at blank
  rcases blank with rfl | rfl | rfl | rfl <;> decide

end Glyph

theorem IsWord.not_blank {s : Text} (word : IsWord s) : ∀ b ∈ s, b ∉ Text.blanks := by
  intro b member blank
  obtain ⟨low, _, ends, _⟩ := Glyph.blank_outside blank
  rw [← s.spell_glyphs] at member
  obtain ⟨g, inside, byte⟩ := List.mem_flatMap.mp member
  rw [← (s.glyphs_form g inside).char_of_byte byte low] at ends
  exact Bool.eq_false_iff.mp (show g.continuesWord = false from ends) (word.continues g inside)

theorem IsNumeral.not_blank {s : Text} (numeral : IsNumeral s) : ∀ b ∈ s, b ∉ Text.blanks := by
  intro b member blank
  obtain ⟨_, _, _, digit, _⟩ := Glyph.blank_outside blank
  rw [numeral.2 b member] at digit
  cases digit

/-- The kind of a text that is a token, by its first glyph. -/
def Glyph.Opening.kind (s : Text) : Opening → TokenKind
  | word => (TokenKind.ofWord? s).getD .identifier
  | number => if s.all Text.isDigit then .integer else .double
  | string => .string
  | symbol => (Cursor.symbolText? s).getD .error
  | none => .error

theorem takeWhile_unquoted {body : Text} (free : 0x22 ∉ body) (t : Text) :
    (body ++ [0x22] ++ t).takeWhile (fun b => b ≠ 0x22) = body := by
  rw [List.append_assoc, List.takeWhile_append_of_pos]
  · simp
  · intro b member
    simp only [ne_eq, decide_eq_true_eq]
    rintro rfl
    exact free member

theorem Cursor.length_of_symbolText? {s : Text} {k : TokenKind} (found : symbolText? s = some k) : s.length ≤ 2 := by
  rcases s with _ | ⟨a, _ | ⟨b, _ | ⟨c, more⟩⟩⟩
  case cons.cons.cons => simp [symbolText?] at found
  all_goals simp

namespace Lexeme
variable {k : TokenKind} {s : Text} (lexeme : Lexeme k s)
include lexeme

theorem kind_eq {g : Glyph} {gs : List Glyph} (split : s.glyphs = g :: gs) : k = g.opening.kind s := by
  have words : ∀ w ∈ TokenKind.words, TokenKind.ofWord? (utf8 w.2) = some w.1 := by decide
  cases lexeme with
  | reserved listed =>
    rw [(isWord_reserved _ listed).opening split List.prefix_rfl, Glyph.Opening.kind, words _ listed]
    rfl
  | identifier word unlisted =>
    have none : TokenKind.ofWord? s = none := by simpa [TokenKind.ofWord?] using unlisted
    rw [word.opening split List.prefix_rfl, Glyph.Opening.kind, none]
    rfl
  | integer numeral =>
    rw [numeral.opening split List.prefix_rfl, Glyph.Opening.kind, if_pos (List.all_eq_true.mpr numeral.2)]
  | double numeral _ =>
    rw [numeral.opening split (List.prefix_append ..), Glyph.Opening.kind, if_neg]
    have point : Text.isDigit 0x2E = false := rfl
    simp [point]
  | string _ => rw [quote_opening split List.prefix_rfl, Glyph.Opening.kind]
  | operator listed =>
    have spelt := Cursor.symbolText?_operators _ listed
    rw [operator_opening split spelt List.prefix_rfl, Glyph.Opening.kind, spelt]
    rfl

/-- No text is a token of two kinds. -/
theorem kind_unique {k' : TokenKind} (other : Lexeme k' s) : k = k' := by
  obtain ⟨g, gs, split⟩ := Text.exists_glyphs lexeme.ne_nil
  exact (lexeme.kind_eq split).trans (other.kind_eq split).symm

/-- Only strings contain blanks. -/
theorem string_of_blank {b : UInt8} (member : b ∈ s) (blank : b ∈ Text.blanks) :
    ∃ body, 0x22 ∉ body ∧ s = 0x22 :: (body ++ [0x22]) := by
  have operators : ∀ w ∈ TokenKind.operators, (utf8 w.2).all (· ∉ Text.blanks) = true := by decide
  cases lexeme with
  | reserved listed => exact absurd blank ((isWord_reserved _ listed).not_blank b member)
  | identifier word _ => exact absurd blank (word.not_blank b member)
  | integer numeral => exact absurd blank (numeral.not_blank b member)
  | double numeral numeral' =>
    rcases List.mem_append.mp member with member | member
    · exact absurd blank (numeral.not_blank b member)
    · rcases List.mem_cons.mp member with rfl | member
      · exact absurd blank (by decide)
      · exact absurd blank (numeral'.not_blank b member)
  | @string body free => exact ⟨body, free, rfl⟩
  | operator listed => exact absurd blank (by simpa using List.all_eq_true.mp (operators _ listed) b member)

/-- The first byte of a token tells its shape, unless it belongs to a longer character. -/
theorem shape_of_byte {b : UInt8} {tail : Text} (first : s = b :: tail) (low : b.toNat < 0x80) :
    (Glyph.ofChar (Char.ofNat b.toNat)).opening.Shape k s := by
  subst first
  obtain ⟨g, gs, split⟩ := Text.exists_glyphs lexeme.ne_nil
  have shape := lexeme.shape split List.prefix_rfl
  have char := (Text.front_form split).char_of_byte (Text.mem_front_glyph split List.prefix_rfl) low
  have same : g.opening = (Glyph.ofChar (Char.ofNat b.toNat)).opening := by
    rw [← char]
    rfl
  rwa [same] at shape

theorem string_of_quote {tail : Text} (first : s = 0x22 :: tail) : ∃ body, 0x22 ∉ body ∧ s = 0x22 :: (body ++ [0x22]) := by
  have shape := lexeme.shape_of_byte first (by decide)
  rwa [Glyph.opening_of_quote (by rfl)] at shape

/-- A token does not begin with a blank, and with a slash only if it is nothing else. -/
theorem front {b : UInt8} {tail : Text} (first : s = b :: tail) : b ∉ Text.blanks ∧ (b = 0x2F → tail = []) := by
  refine ⟨?_, ?_⟩
  · intro blank
    obtain ⟨low, nothing, _⟩ := Glyph.blank_outside blank
    have shape := lexeme.shape_of_byte first low
    rwa [nothing] at shape
  · rintro rfl
    have symbol : (Glyph.ofChar (Char.ofNat (0x2F : UInt8).toNat)).opening = .symbol := by decide
    have shape := lexeme.shape_of_byte first (by decide)
    rw [symbol, first] at shape
    rcases tail with _ | ⟨c, _ | ⟨d, more⟩⟩
    · rfl
    · simp [Glyph.Opening.Shape, Cursor.symbolText?, Cursor.symbolEqual?] at shape
    · simp [Glyph.Opening.Shape, Cursor.symbolText?] at shape

omit lexeme in
/-- Nothing behind a string makes it longer. -/
theorem string_longest {body : Text} (free : 0x22 ∉ body) (t : Text) :
    Longest (fun u => ∃ k, Lexeme k u) (0x22 :: (body ++ [0x22]) ++ t) (0x22 :: (body ++ [0x22])) := by
  refine ⟨List.prefix_append _ t, ⟨.string, .string free⟩, ?_⟩
  rintro other front ⟨_, rival⟩
  obtain ⟨b, tail, rfl⟩ := List.exists_cons_of_ne_nil rival.ne_nil
  obtain ⟨rfl, _⟩ := List.cons_prefix_cons.mp front
  obtain ⟨body', free', same⟩ := rival.string_of_quote rfl
  rw [same] at front ⊢
  obtain ⟨_, rest, split⟩ := List.cons_prefix_cons.mp front
  -- Both bodies end at the first quote behind the opening one.
  have equal : body' = body :=
    (takeWhile_unquoted free' rest).symm.trans ((congrArg (List.takeWhile _) split).trans (takeWhile_unquoted free t))
  exact Nat.le_of_eq (by rw [equal])

omit lexeme in
/-- Whatever else is a token where an operator stands is an operator too. -/
theorem operator_rival {w : String} (listed : (k, w) ∈ TokenKind.operators) {k' : TokenKind} {other t : Text}
    (front : other <+: utf8 w ++ t) (rival : Lexeme k' other) : Cursor.symbolText? other = some k' := by
  have nonempty : utf8 w ++ t ≠ [] := List.append_ne_nil_of_left_ne_nil (Lexeme.operator listed).ne_nil t
  obtain ⟨g, gs, split⟩ := Text.exists_glyphs nonempty
  have shape := rival.shape split front
  rwa [operator_opening split (Cursor.symbolText?_operators _ listed) (List.prefix_append _ t)] at shape

omit lexeme in
/-- Nothing makes an operator of two characters longer. -/
theorem operator_longest {w : String} (listed : (k, w) ∈ TokenKind.operators) (two : (utf8 w).length = 2) (t : Text) :
    Longest (fun u => ∃ k, Lexeme k u) (utf8 w ++ t) (utf8 w) := by
  refine ⟨List.prefix_append _ t, ⟨k, .operator listed⟩, ?_⟩
  rintro other front ⟨k', rival⟩
  rw [two]
  exact Cursor.length_of_symbolText? (operator_rival listed front rival)

omit lexeme in
/-- Nothing makes an operator longer that does not go together with an equals sign. -/
theorem single_longest {w : String} (listed : (k, w) ∈ TokenKind.operators) {b : UInt8} (single : utf8 w = [b])
    (alone : Cursor.symbolEqual? (Char.ofNat b.toNat) = none) (t : Text) :
    Longest (fun u => ∃ k, Lexeme k u) (utf8 w ++ t) (utf8 w) := by
  refine ⟨List.prefix_append _ t, ⟨k, .operator listed⟩, ?_⟩
  rintro other front ⟨k', rival⟩
  have found := operator_rival listed front rival
  rw [single] at front ⊢
  rcases other with _ | ⟨c, _ | ⟨d, _ | ⟨e, more⟩⟩⟩
  · exact absurd rfl rival.ne_nil
  · exact Nat.le_refl _
  · obtain ⟨rfl, _⟩ := List.cons_prefix_cons.mp front
    simp [Cursor.symbolText?, alone] at found
  · simp [Cursor.symbolText?] at found

/-- Where a blank stands behind a token, the token goes no further. -/
theorem longest {t : Text} (gap : ∀ b ∈ t.head?, b ∈ Text.blanks) : Longest (fun u => ∃ k, Lexeme k u) (s ++ t) s := by
  obtain ⟨c, tail, first⟩ := List.exists_cons_of_ne_nil lexeme.ne_nil
  by_cases quote : c = 0x22
  · obtain ⟨body, free, rfl⟩ := lexeme.string_of_quote (quote ▸ first)
    exact string_longest free t
  · refine ⟨List.prefix_append s t, ⟨k, lexeme⟩, ?_⟩
    rintro other front ⟨_, rival⟩
    apply Nat.le_of_not_lt
    intro longer
    obtain ⟨more, rfl⟩ := List.prefix_of_prefix_length_le (List.prefix_append s t) front (Nat.le_of_lt longer)
    obtain ⟨rest, split⟩ := (List.prefix_append_right_inj s).mp front
    cases more with
    | nil => simp at longer
    | cons b more =>
      have blank : b ∈ Text.blanks := gap b (by simp [← split])
      -- A longer one would contain the blank, so that it were a string.
      obtain ⟨body, _, same⟩ := rival.string_of_blank (by simp) blank
      rw [first] at same
      exact quote (List.cons.inj same).1

end Lexeme

/-- Where there is a longest token, it is what is cut off. -/
theorem Cut.eq_of_longest {text lexeme taken s : Text} {k k' : TokenKind} (cut : Cut text k' lexeme taken) (token : Lexeme k s)
    (longest : Longest (fun u => ∃ k, Lexeme k u) text s) : (k', lexeme) = (k, s) ∧ taken = s := by
  cases cut with
  | ended => exact absurd (List.prefix_nil.mp longest.front) token.ne_nil
  | token token' longest' =>
    obtain rfl := longest'.unique longest
    rw [token'.kind_unique token]
    exact ⟨rfl, rfl⟩
  | unterminated unreadable => exact absurd token (unreadable k s longest.front)
  | unexpected _ _ unreadable => exact absurd token (unreadable k s longest.front)

theorem Cut.lexeme_at_end {text lexeme taken : Text} {k : TokenKind} (cut : Cut text k lexeme taken) (ended : k = .eof) :
    lexeme = [] := by
  cases cut with
  | ended => rfl
  | token token _ => exact absurd ended token.kind_ne.1
  | unterminated | unexpected => cases ended

theorem Cut.lexeme_inside {text lexeme taken : Text} {k : TokenKind} (cut : Cut text k lexeme taken) (inside : k ≠ .eof)
    (valid : k ≠ .error) : Lexeme k lexeme := by
  cases cut with
  | ended => exact absurd rfl inside
  | token token _ => exact token
  | unterminated | unexpected => exact absurd rfl valid

/-- A text as tokens, with gaps before, between and behind them. Each token is the longest one where it stands, and no slash
makes a comment with what follows it. -/
inductive Divided : Text → List (TokenKind × Text) → Prop
  | ending {gap : Text} : Spacing gap → Divided gap []
  | token {gap s rest : Text} {k : TokenKind} {more : List (TokenKind × Text)} :
      Spacing gap → Lexeme k s → Longest (fun u => ∃ k, Lexeme k u) (s ++ rest) s →
      (s = [0x2F] → rest.head? ≠ some 0x2F) → Divided rest more → Divided (gap ++ (s ++ rest)) ((k, s) :: more)

/-- What is shown of a token: its kind and its text. -/
def Token.face (t : Token) : TokenKind × Text :=
  (t.kind, t.lexeme)

namespace Cursor.Aligned
variable {c : Cursor} (aligned : c.Aligned)
include aligned

/-- What is cut off comes behind what is skipped. -/
theorem cut : ∃ taken, Text.afterBlanks false c.unread = taken ++ c.next.2.unread ∧
    Cut (taken ++ c.next.2.unread) c.next.1.kind c.next.1.lexeme taken := by
  obtain ⟨blanks, taken, same, longest, cut⟩ := aligned.cuts
  obtain ⟨skipped, split, longest'⟩ := Text.afterBlanks_longest false c.unread
  obtain rfl : blanks = skipped := longest.unique longest'
  exact ⟨taken, List.append_cancel_left (split.symm.trans same), cut⟩

theorem next_token {gap s rest : Text} {k : TokenKind} (spacing : Spacing gap) (lexeme : Lexeme k s)
    (longest : Longest (fun u => ∃ k, Lexeme k u) (s ++ rest) s) (apart : s = [0x2F] → rest.head? ≠ some 0x2F)
    (here : c.unread = gap ++ (s ++ rest)) : c.next.1.face = (k, s) ∧ c.next.2.unread = rest := by
  obtain ⟨taken, split, cut⟩ := aligned.cut
  have stops : Text.afterBlanks false (s ++ rest) = s ++ rest := by
    obtain ⟨b, tail, rfl⟩ := List.exists_cons_of_ne_nil lexeme.ne_nil
    obtain ⟨blank, slash⟩ := lexeme.front rfl
    apply Text.afterBlanks_stops blank
    rintro rfl
    rw [slash rfl]
    exact apart (by rw [slash rfl])
  rw [here, Text.afterBlanks_spacing spacing, stops] at split
  rw [← split] at cut
  obtain ⟨face, rfl⟩ := cut.eq_of_longest lexeme longest
  exact ⟨face, (List.append_cancel_left split).symm⟩

theorem next_ending (spacing : Spacing c.unread) : c.next.1.face = (.eof, []) := by
  obtain ⟨taken, split, cut⟩ := aligned.cut
  have skipped := Text.afterBlanks_spacing spacing []
  rw [List.append_nil] at skipped
  have ended : c.next.1.kind = .eof := cut.kind_eof_iff.mpr (split.symm.trans skipped)
  exact Prod.ext ended (cut.lexeme_at_end ended)

end Cursor.Aligned

namespace Divided

theorem readInto {text : Text} {faces : List (TokenKind × Text)} (divided : Divided text faces) {c : Cursor} (aligned : c.Aligned)
    (here : c.unread = text) (read : Array Token) :
    (Token.readInto read c).toList.map Token.face = read.toList.map Token.face ++ (faces ++ [(.eof, [])]) := by
  induction divided generalizing c read with
  | ending spacing =>
    have face := aligned.next_ending (here ▸ spacing)
    rw [Token.readInto_eq, if_pos (Prod.mk.inj face).1, Array.toList_push, List.map_append, List.map_singleton, face]
    rfl
  | @token gap s rest k more spacing lexeme longest apart _ ih =>
    obtain ⟨face, behind⟩ := aligned.next_token spacing lexeme longest apart here
    have inside : c.next.1.kind ≠ .eof := by
      rw [(Prod.mk.inj face).1]
      exact lexeme.kind_ne.1
    rw [Token.readInto_eq, if_neg inside, ih aligned.next behind, Array.toList_push, List.map_append, List.map_singleton, face,
      List.append_assoc]
    rfl

/-- A divided text is read as the tokens that it is divided into. -/
theorem all {source : Text} {faces : List (TokenKind × Text)} (divided : Divided source faces) :
    (Token.all source).map Token.face = faces ++ [(.eof, [])] :=
  divided.readInto (Cursor.start_aligned source) source.spell_glyphs #[]

end Divided

end ExprLang
