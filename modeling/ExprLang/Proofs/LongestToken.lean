import ExprLang.Proofs.TokenClasses

/-! The token that is read at a glyph is the longest one there. For each sort of tokens the glyphs are taken one by one as
long as they fit, and whatever longer token there were would begin with the same glyphs. -/

namespace ExprLang
open Glyph (spell)

/-- The text that is still unread. -/
def Cursor.unread (c : Cursor) : Text :=
  spell c.rest

/-- What was read is what is cut off from the text. -/
def Takes (text : Text) (read : Token × Cursor) : Prop :=
  ∃ taken, text = taken ++ read.2.unread ∧ Cut text read.1.kind read.1.lexeme taken

theorem IsNumeral.length_le {s text : Text} (numeral : IsNumeral s) (front : s <+: text) :
    s.length ≤ (text.takeWhile Text.isDigit).length := by
  obtain ⟨more, rfl⟩ := front
  rw [List.takeWhile_append_of_pos numeral.2, List.length_append]
  exact Nat.le_add_right _ _

/-- The whole part of a double is made of all digits at the front. -/
theorem IsNumeral.double_front {whole fraction text : Text} (numeral : IsNumeral whole)
    (front : whole ++ 0x2E :: fraction <+: text) :
    whole = text.takeWhile Text.isDigit ∧ ∃ after, text.dropWhile Text.isDigit = 0x2E :: after ∧ fraction <+: after := by
  obtain ⟨more, rfl⟩ := front
  have point : Text.isDigit 0x2E = false := rfl
  rw [List.append_assoc, List.takeWhile_append_of_pos numeral.2, List.dropWhile_append_of_pos numeral.2]
  simp [point]

theorem IsWord.lexeme {s : Text} (word : IsWord s) : Lexeme ((TokenKind.ofWord? s).getD .identifier) s := by
  unfold TokenKind.ofWord?
  cases found : TokenKind.words.find? (fun w => utf8 w.2 = s) with
  | none =>
    refine .identifier word ?_
    simpa using List.find?_eq_none.mp found
  | some w =>
    have same : utf8 w.2 = s := by simpa using List.find?_some found
    rw [← same]
    exact .reserved (List.mem_of_find?_eq_some found)

namespace Glyph

theorem spell_split (p : Glyph → Bool) (g : Glyph) (gs : List Glyph) :
    spell (g :: gs) = spell (g :: gs.takeWhile p) ++ spell (gs.dropWhile p) := by
  rw [← spell_append, List.cons_append, List.takeWhile_append_dropWhile]

theorem spell_digits {g : Glyph} {gs : List Glyph} (forms : ∀ h ∈ g :: gs, h.Form) (digit : g.isDigit = true) :
    spell (g :: gs.takeWhile isDigit) = (spell (g :: gs)).takeWhile Text.isDigit ∧
      spell (gs.dropWhile isDigit) = (spell (g :: gs)).dropWhile Text.isDigit := by
  have both := spell_while fun h member => ⟨forms h member, fun _ => (forms h member).isDigit_eq⟩
  rwa [List.takeWhile_cons_of_pos digit, List.dropWhile_cons_of_pos digit] at both

theorem spell_unquoted {gs : List Glyph} (forms : ∀ h ∈ gs, h.Form) :
    spell (gs.takeWhile fun h => h.char ≠ '"') = (spell gs).takeWhile (fun b => b ≠ 0x22) ∧
      spell (gs.dropWhile fun h => h.char ≠ '"') = (spell gs).dropWhile (fun b => b ≠ 0x22) := by
  apply spell_while
  intro h member
  refine ⟨forms h member, ?_⟩
  intro b inside
  have same : h.char = '"' ↔ b = 0x22 := (forms h member).char_eq_iff (by decide) inside
  simp [same]

end Glyph

theorem isNumeral_spell {g : Glyph} {gs : List Glyph} (forms : ∀ h ∈ g :: gs, h.Form) (digit : g.isDigit = true) :
    IsNumeral (spell (g :: gs.takeWhile Glyph.isDigit)) := by
  refine ⟨?_, ?_⟩
  · simp [(forms g (by simp)).ne_nil]
  · rw [(Glyph.spell_digits forms digit).1]
    exact List.all_eq_true.mp List.all_takeWhile

theorem quote_not_mem_takeWhile (t : Text) : 0x22 ∉ t.takeWhile fun b => b ≠ 0x22 := by
  intro member
  simpa using List.all_eq_true.mp List.all_takeWhile _ member

/-- Where a point and a digit follow in the text, they are the next two glyphs. -/
theorem point_of_fraction {gs : List Glyph} (forms : ∀ h ∈ gs, h.Form) {fraction after : Text} (numeral : IsNumeral fraction)
    (point : spell gs = 0x2E :: after) (front : fraction <+: after) :
    ∃ h d more, gs = h :: d :: more ∧ h.char = '.' ∧ d.isDigit = true := by
  obtain ⟨nonempty, digits⟩ := numeral
  obtain ⟨b, tail, rfl⟩ := List.exists_cons_of_ne_nil nonempty
  obtain ⟨later, rfl⟩ := front
  cases gs with
  | nil => cases point
  | cons h gs =>
    obtain ⟨form, others⟩ := List.forall_mem_cons.mp forms
    have char : h.char = '.' := (form.char_eq_iff (by decide) (form.mem_front point)).mpr rfl
    have behind : spell gs = b :: tail ++ later := by
      rw [Glyph.spell_cons, form.bytes_eq (by decide) char] at point
      exact (List.cons.inj point).2
    cases gs with
    | nil => cases behind
    | cons d more =>
      obtain ⟨second, _⟩ := List.forall_mem_cons.mp others
      have member : b ∈ d.bytes := second.mem_front behind
      exact ⟨h, d, more, rfl, char, second.isDigit_eq member ▸ digits b List.mem_cons_self⟩

namespace Cursor

section Scanning
variable {g : Glyph} {rest : List Glyph} (split : (spell (g :: rest)).glyphs = g :: rest)
include split

theorem glyph_form : ∀ h ∈ g :: rest, h.Form := by
  rw [← split]
  exact Text.glyphs_form _

theorem behind_form (p : Glyph → Bool) : ∀ h ∈ rest.dropWhile p, h.Form := by
  intro h member
  exact glyph_form split h (List.mem_cons_of_mem g ((List.dropWhile_sublist p).subset member))

theorem takes_token {k : TokenKind} {s : Text} {after : List Glyph} (lexeme : Lexeme k s)
    (behind : spell (g :: rest) = s ++ spell after)
    (bound : ∀ k' s', s' <+: spell (g :: rest) → g.opening.Shape k' s' → s'.length ≤ s.length) (line line' : Nat) :
    Takes (spell (g :: rest)) (⟨k, s, line⟩, ⟨after, line'⟩) := by
  refine ⟨s, behind, .token lexeme ⟨?_, ⟨k, lexeme⟩, ?_⟩⟩
  · rw [behind]
    exact List.prefix_append _ _
  · rintro s' front ⟨k', lexeme'⟩
    exact bound k' s' front (lexeme'.shape split front)

theorem unreadable_of_shape (none : ∀ k s, s <+: spell (g :: rest) → ¬ g.opening.Shape k s) : Unreadable (spell (g :: rest)) :=
  fun k s front lexeme => none k s front (lexeme.shape split front)

theorem word_takes (starts : g.startsWord = true) (line : Nat) : Takes (spell (g :: rest)) (word g rest line) := by
  have opening : g.opening = .word := by simp [Glyph.opening, starts]
  have all : ∀ h ∈ rest.takeWhile Glyph.continuesWord, h.continuesWord = true := List.all_eq_true.mp List.all_takeWhile
  have whole : ∀ h ∈ g :: rest.takeWhile Glyph.continuesWord, h = .ofChar h.char := by
    intro h member
    have continues : h.continuesWord = true := by
      rcases List.mem_cons.mp member with rfl | member
      · simp [Glyph.continuesWord, starts]
      · exact all h member
    have inside : h ∈ (spell (g :: rest)).glyphs := by
      rw [split]
      exact List.cons_subset_cons g (List.takeWhile_sublist _).subset member
    exact Text.whole_of_continues inside continues
  have isWord : IsWord (spell (g :: rest.takeWhile Glyph.continuesWord)) := by
    rw [isWord_iff]
    refine ⟨g, rest.takeWhile Glyph.continuesWord, ?_, starts, all⟩
    simpa using Text.glyphs_append whole []
  refine takes_token split isWord.lexeme (Glyph.spell_split _ g rest) ?_ line line
  intro k s front shape
  rw [opening] at shape
  -- A word ends between two glyphs of the text, so its glyphs are among the first ones that continue a word.
  obtain ⟨more, same⟩ := front
  have glyphs := IsWord.glyphs_append shape more
  obtain ⟨h, hs, here, _, continuing⟩ := (isWord_iff s).mp shape
  rw [same, split, here, List.cons_append] at glyphs
  obtain ⟨rfl, rfl⟩ := List.cons.inj glyphs
  rw [← Text.spell_glyphs s, here, List.takeWhile_append_of_pos continuing]
  simp

theorem integer_takes (digit : g.isDigit = true)
    (none : ∀ point d more, rest.dropWhile Glyph.isDigit = point :: d :: more → ¬ (point.char = '.' ∧ d.isDigit = true))
    (line : Nat) :
    Takes (spell (g :: rest))
      (⟨.integer, spell (g :: rest.takeWhile Glyph.isDigit), line⟩, ⟨rest.dropWhile Glyph.isDigit, line⟩) := by
  have forms := glyph_form split
  obtain ⟨takes, drops⟩ := Glyph.spell_digits forms digit
  refine takes_token split (.integer (isNumeral_spell forms digit)) (Glyph.spell_split _ g rest) ?_ line line
  intro k s front shape
  rw [Glyph.opening_of_digit digit] at shape
  rw [takes]
  rcases shape with numeral | ⟨whole, fraction, numeral, numeral', rfl⟩
  · exact numeral.length_le front
  · obtain ⟨_, after, found, front'⟩ := numeral.double_front front
    rw [← drops] at found
    obtain ⟨point, d, more, same, char, digit'⟩ := point_of_fraction (behind_form split _) numeral' found front'
    exact absurd ⟨char, digit'⟩ (none point d more same)

theorem double_takes (digit : g.isDigit = true) {point d : Glyph} {more : List Glyph}
    (after : rest.dropWhile Glyph.isDigit = point :: d :: more) (char : point.char = '.') (digit' : d.isDigit = true)
    (line : Nat) :
    Takes (spell (g :: rest))
      (⟨.double, spell (g :: rest.takeWhile Glyph.isDigit ++ point :: d :: more.takeWhile Glyph.isDigit), line⟩,
        ⟨more.dropWhile Glyph.isDigit, line⟩) := by
  have forms := glyph_form split
  obtain ⟨pointForm, others⟩ := List.forall_mem_cons.mp (after ▸ behind_form split Glyph.isDigit)
  have dot : point.bytes = [0x2E] := pointForm.bytes_eq (by decide) char
  obtain ⟨takes, drops⟩ := Glyph.spell_digits forms digit
  obtain ⟨takes', _⟩ := Glyph.spell_digits others digit'
  rw [after, Glyph.spell_cons, dot, List.singleton_append] at drops
  have spelt : spell (g :: rest.takeWhile Glyph.isDigit ++ point :: d :: more.takeWhile Glyph.isDigit) =
      spell (g :: rest.takeWhile Glyph.isDigit) ++ 0x2E :: spell (d :: more.takeWhile Glyph.isDigit) := by
    rw [Glyph.spell_append, Glyph.spell_cons point, dot, List.singleton_append]
  have behind : spell (g :: rest) =
      spell (g :: rest.takeWhile Glyph.isDigit ++ point :: d :: more.takeWhile Glyph.isDigit) ++
        spell (more.dropWhile Glyph.isDigit) := by
    rw [← Glyph.spell_append, List.append_assoc, List.cons_append, List.cons_append, List.cons_append,
      List.takeWhile_append_dropWhile, ← after, List.takeWhile_append_dropWhile]
  refine takes_token split ?_ behind ?_ line line
  · rw [spelt]
    exact .double (isNumeral_spell forms digit) (isNumeral_spell others digit')
  · intro k s front shape
    rw [Glyph.opening_of_digit digit] at shape
    rw [spelt, takes, takes', List.length_append, List.length_cons]
    rcases shape with numeral | ⟨whole, fraction, numeral, numeral', rfl⟩
    · have bound := numeral.length_le front
      omega
    · obtain ⟨rfl, after', found, front'⟩ := numeral.double_front front
      rw [← drops] at found
      obtain ⟨_, rfl⟩ := List.cons.inj found
      have bound := numeral'.length_le front'
      rw [List.length_append, List.length_cons]
      omega

theorem number_takes (digit : g.isDigit = true) (line : Nat) : Takes (spell (g :: rest)) (number g rest line) := by
  unfold number
  simp only
  split
  next point d more after =>
    split
    next double =>
      obtain ⟨char, digit'⟩ : point.char = '.' ∧ d.isDigit = true := by simpa using double
      exact double_takes split digit after char digit' line
    next integer =>
      apply integer_takes split digit
      intro point' d' more' same
      obtain ⟨rfl, rfl, rfl⟩ : point = point' ∧ d = d' ∧ more = more' := by simpa [after] using same
      simpa using integer
  next other =>
    apply integer_takes split digit
    intro point d more same
    exact absurd same (other point d more)

theorem quote_spelt (quote : g.char = '"') : spell (g :: rest) = 0x22 :: spell rest := by
  rw [Glyph.spell_cons, (glyph_form split g List.mem_cons_self).bytes_eq (by decide) quote]
  rfl

theorem unterminated_takes (quote : g.char = '"') (ended : rest.dropWhile (fun h => h.char ≠ '"') = []) (line : Nat) :
    Takes (spell (g :: rest)) (⟨.error, utf8 "Unterminated string.", line⟩, ⟨[], line⟩) := by
  have text := quote_spelt split quote
  have drops := (Glyph.spell_unquoted fun h member => glyph_form split h (List.mem_cons_of_mem g member)).2
  have none : 0x22 ∉ spell rest := by
    rw [← List.takeWhile_append_dropWhile (p := fun b => decide (b ≠ 0x22)) (l := spell rest), ← drops, ended]
    simpa using quote_not_mem_takeWhile (spell rest)
  have unreadable : Unreadable (spell (g :: rest)) := by
    apply unreadable_of_shape split
    intro k s front shape
    rw [Glyph.opening_of_quote quote] at shape
    obtain ⟨body, _, rfl⟩ := shape
    rw [text] at front
    obtain ⟨_, behind⟩ := List.cons_prefix_cons.mp front
    exact none (behind.subset (by simp))
  refine ⟨spell (g :: rest), by simp [unread], ?_⟩
  rw [text] at unreadable ⊢
  exact .unterminated unreadable

theorem quoted_takes (quote : g.char = '"') {close : Glyph} {after : List Glyph}
    (found : rest.dropWhile (fun h => h.char ≠ '"') = close :: after) (line : Nat) :
    Takes (spell (g :: rest))
      (⟨.string, spell (g :: (rest.takeWhile fun h => h.char ≠ '"') ++ [close]), line⟩, ⟨after, line⟩) := by
  have text := quote_spelt split quote
  have takes := (Glyph.spell_unquoted fun h member => glyph_form split h (List.mem_cons_of_mem g member)).1
  have last : close.char = '"' := by
    have stops := List.head?_dropWhile_not (fun h : Glyph => decide (h.char ≠ '"')) rest
    rw [found] at stops
    simpa using stops
  have closing : close.bytes = [0x22] := (behind_form split _ close (found ▸ List.mem_cons_self)).bytes_eq (by decide) last
  have spelt : spell (g :: (rest.takeWhile fun h => h.char ≠ '"') ++ [close]) =
      0x22 :: ((spell rest).takeWhile (fun b => b ≠ 0x22) ++ [0x22]) := by
    rw [Glyph.spell_append, Glyph.spell_cons, (glyph_form split g List.mem_cons_self).bytes_eq (by decide) quote, takes,
      Glyph.spell_cons, closing]
    rfl
  have behind : spell (g :: rest) = spell (g :: (rest.takeWhile fun h => h.char ≠ '"') ++ [close]) ++ spell after := by
    rw [← Glyph.spell_append, List.append_assoc, List.cons_append, List.singleton_append, ← found,
      List.takeWhile_append_dropWhile]
  refine takes_token split ?_ behind ?_ line line
  · rw [spelt]
    exact .string (quote_not_mem_takeWhile _)
  · intro k s front shape
    rw [Glyph.opening_of_quote quote] at shape
    obtain ⟨body, free, rfl⟩ := shape
    rw [text] at front
    obtain ⟨_, more, same⟩ := List.cons_prefix_cons.mp front
    have inside : ∀ b ∈ body, decide (b ≠ 0x22) = true := by
      intro b member
      simp only [decide_eq_true_eq]
      rintro rfl
      exact free member
    rw [spelt, ← same, List.append_assoc, List.takeWhile_append_of_pos inside]
    simp

theorem string_takes (quote : g.char = '"') (line : Nat) : Takes (spell (g :: rest)) (string g rest line) := by
  unfold string
  simp only
  split
  next ended => exact unterminated_takes split quote ended _
  next close after found => exact quoted_takes split quote found _

theorem operator_length {k : TokenKind} {s : Text} (found : symbolText? s = some k) (front : s <+: spell (g :: rest)) :
    s.length = 1 ∨ s.length = 2 ∧ (∃ long, symbolEqual? g.char = some long) ∧ ∃ h after, rest = h :: after ∧ h.char = '=' := by
  obtain ⟨form, others⟩ := List.forall_mem_cons.mp (glyph_form split)
  unfold symbolText? at found
  split at found
  next b => exact .inl rfl
  next b c =>
    split at found
    next equals =>
      subst equals
      obtain ⟨⟨short, single⟩, _⟩ := symbolEqual?_eq_some found
      have low := (symbol?_eq_some single).1
      have char := Text.front_char split front low
      refine .inr ⟨rfl, ⟨k, char ▸ found⟩, ?_⟩
      rw [Glyph.spell_cons, form.bytes_eq low char] at front
      obtain ⟨_, more, behind⟩ := List.cons_prefix_cons.mp front
      cases rest with
      | nil => cases behind
      | cons h after =>
        have second := others h List.mem_cons_self
        exact ⟨h, after, rfl, (second.char_eq_iff (by decide) (second.mem_front behind.symm)).mpr rfl⟩
    next => cases found
  next => cases found

theorem ascii_spelt {h : Glyph} (member : h ∈ g :: rest) (low : h.char.toNat < 0x80) :
    h.bytes = String.utf8EncodeChar h.char := by
  rw [← split] at member
  exact Text.bytes_of_ascii member low

theorem short_takes {k : TokenKind} (found : symbol? g.char = some k)
    (single : ¬ ∃ long h after, symbolEqual? g.char = some long ∧ rest = h :: after ∧ h.char = '=') (line : Nat) :
    Takes (spell (g :: rest)) (⟨k, g.bytes, line⟩, ⟨rest, line⟩) := by
  obtain ⟨low, opening, listed⟩ := symbol?_eq_some found
  have spelt : g.bytes = utf8 (String.singleton g.char) := by
    rw [ascii_spelt split List.mem_cons_self low, Text.utf8_eq]
    simp
  refine takes_token split (spelt ▸ .operator listed) (Glyph.spell_cons g rest) ?_ line line
  intro k' s front shape
  rw [show g.opening = .symbol from opening] at shape
  rcases operator_length split shape front with one | ⟨_, ⟨long, double⟩, h, after, same, equals⟩
  · rw [one]
    exact List.length_pos_iff.mpr (glyph_form split g List.mem_cons_self).ne_nil
  · exact absurd ⟨long, h, after, double, same, equals⟩ single

theorem long_takes {k : TokenKind} {h : Glyph} {after : List Glyph} (found : symbolEqual? g.char = some k)
    (second : rest = h :: after) (equals : h.char = '=') (line : Nat) :
    Takes (spell (g :: rest)) (⟨k, spell [g, h], line⟩, ⟨after, line⟩) := by
  subst second
  obtain ⟨⟨short, single⟩, listed⟩ := symbolEqual?_eq_some found
  obtain ⟨low, opening, _⟩ := symbol?_eq_some single
  have sign : h.bytes = String.utf8EncodeChar '=' := equals ▸ ascii_spelt split (by simp) (by rw [equals]; decide)
  have spelt : spell [g, h] = utf8 (String.ofList [g.char, '=']) := by
    rw [Text.utf8_eq, String.toList_ofList, Glyph.spell_cons, Glyph.spell_cons, ascii_spelt split List.mem_cons_self low, sign]
    rfl
  have behind : spell (g :: h :: after) = spell [g, h] ++ spell after := by
    rw [← Glyph.spell_append]
    rfl
  have two : (spell [g, h]).length = 2 := by
    rw [Glyph.spell_cons, (glyph_form split g List.mem_cons_self).bytes_eq low rfl, Glyph.spell_cons, sign]
    rfl
  refine takes_token split (spelt ▸ .operator listed) behind ?_ line line
  intro k' s front shape
  rw [show g.opening = .symbol from opening] at shape
  rcases operator_length split shape front with one | ⟨more, _⟩
  · omega
  · omega

theorem symbol_takes (starts : ¬ g.startsWord = true) (digit : ¬ g.isDigit = true) (quote : g.char ≠ '"') (line : Nat) :
    Takes (spell (g :: rest)) (symbol g rest line) := by
  cases found : symbol? g.char with
  | none =>
    have opening : g.opening = .none := by simp [Glyph.opening, starts, digit, quote, found]
    have unreadable : Unreadable (spell (g :: rest)) := by
      apply unreadable_of_shape split
      intro k s _ shape
      rw [opening] at shape
      exact shape
    simp only [symbol, found]
    exact ⟨g.bytes, Glyph.spell_cons g rest, .unexpected split quote unreadable⟩
  | some short =>
    by_cases pair : ∃ long h after, symbolEqual? g.char = some long ∧ rest = h :: after ∧ h.char = '='
    · obtain ⟨long, h, after, double, same, equals⟩ := pair
      simp only [symbol, found, double, same, equals, if_true]
      rw [← same]
      exact long_takes split double same equals line
    · have same : symbol g rest line = (⟨short, g.bytes, line⟩, ⟨rest, line⟩) := by
        simp only [symbol, found]
        cases double : symbolEqual? g.char with
        | none => rfl
        | some long =>
          cases rest with
          | nil => rfl
          | cons h after => exact if_neg fun equals => pair ⟨long, h, after, double, rfl, equals⟩
      rw [same]
      exact short_takes split found pair line

theorem scan_takes (line : Nat) : Takes (spell (g :: rest)) (scan g rest line) := by
  unfold scan
  split
  next starts => exact word_takes split starts line
  next starts =>
    split
    next digit => exact number_takes split digit line
    next digit =>
      split
      next quote => exact string_takes split quote line
      next quote => exact symbol_takes split starts digit quote line

end Scanning

end Cursor

end ExprLang
