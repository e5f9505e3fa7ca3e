import Mathlib
import ExprLang.Proofs.TokenGaps
import ExprLang.Proofs.TokenStream

/-! The gaps of a program may be exchanged. Its lexemes, with other gaps between and around them that begin with a blank, are
read as the same tokens. -/

namespace ExprLang

namespace Token

theorem cut_of_all {source : Text} {t : Token} (member : t ∈ Token.all source) :
    ∃ text taken, Cut text t.kind t.lexeme taken := by
  obtain ⟨last, _, _, reads⟩ := all_calls source
  rw [reads, Cursor.calls] at member
  obtain ⟨n, _, rfl⟩ := List.mem_map.mp member
  obtain ⟨_, _, _, _, cut⟩ := ((Cursor.start_aligned source).after n).cuts
  exact ⟨_, _, cut⟩

theorem Closed.split {ts : List Token} (closed : Closed ts) :
    ∃ front ending, ts = front ++ [ending] ∧ ending.kind = .eof ∧ ∀ t ∈ front, t.kind ≠ .eof := by
  induction ts with
  | nil => exact closed.elim
  | cons t rest ih =>
    by_cases ended : t.kind = .eof
    · exact ⟨[], t, by rw [closed.rest_eq_nil ended]; rfl, ended, by simp⟩
    · obtain ⟨front, ending, rfl, final, inside⟩ := ih (closed.rest_closed ended)
      exact ⟨t :: front, ending, rfl, final, List.forall_mem_cons.mpr ⟨ended, inside⟩⟩

/-- Without error tokens, a program is read as tokens of the lexical grammar and the end token. -/
theorem all_lexemes {source : Text} (valid : ∀ t ∈ Token.all source, t.kind ≠ .error) :
    (∀ t ∈ (Token.all source).dropLast, Lexeme t.kind t.lexeme) ∧
      (Token.all source).map face = (Token.all source).dropLast.map face ++ [(.eof, [])] := by
  have cuts (t : Token) (member : t ∈ Token.all source) := cut_of_all member
  obtain ⟨front, ending, split, ended, inside⟩ := (closed_all source).split
  rw [split] at valid cuts ⊢
  rw [List.dropLast_concat, List.map_append, List.map_singleton]
  refine ⟨?_, ?_⟩
  · intro t member
    obtain ⟨_, _, cut⟩ := cuts t (List.mem_append_left _ member)
    exact cut.lexeme_inside (inside t member) (valid t (List.mem_append_left _ member))
  · obtain ⟨_, _, cut⟩ := cuts ending (by simp)
    rw [show ending.face = (.eof, []) from Prod.ext ended (cut.lexeme_at_end ended)]

theorem untilError_eq_self {ts : List Token} (valid : ∀ t ∈ ts, t.kind ≠ .error) : untilError ts = ts := by
  have all : ∀ t ∈ ts, decide (t.kind ≠ .error) = true := by simpa using valid
  rw [untilError, List.takeWhile_eq_self_iff.mpr all, List.dropWhile_eq_nil_iff.mpr all]
  simp

theorem valid_of_untilError {ts : List Token} (ends : (untilError ts).getLast?.map kind = some .eof) :
    ∀ t ∈ ts, t.kind ≠ .error := by
  cases behind : ts.dropWhile fun t => t.kind ≠ .error with
  | nil => simpa using List.dropWhile_eq_nil_iff.mp behind
  | cons e rest =>
    have failed : e.kind = .error := by
      have stops := List.head?_dropWhile_not (fun t : Token => decide (t.kind ≠ .error)) ts
      rw [behind] at stops
      simpa using stops
    rw [untilError, behind] at ends
    simp [failed] at ends

end Token

/-- A gap that begins with a blank. -/
def Separator (gap : Text) : Prop :=
  Spacing gap ∧ ∃ b ∈ gap.head?, b ∈ Text.blanks

/-- Texts with separators between and around them. -/
inductive Respaced : List Text → Text → Prop
  | ending {gap : Text} : Separator gap → Respaced [] gap
  | lexeme {gap s rest : Text} {more : List Text} :
      Separator gap → Respaced more rest → Respaced (s :: more) (gap ++ (s ++ rest))

theorem Respaced.front {ss : List Text} {text : Text} (respaced : Respaced ss text) : ∀ b ∈ text.head?, b ∈ Text.blanks := by
  have heads {gap : Text} (separator : Separator gap) (rest : Text) : ∀ b ∈ (gap ++ rest).head?, b ∈ Text.blanks := by
    obtain ⟨_, b, first, blank⟩ := separator
    intro c found
    rw [List.head?_append, first, Option.some_or] at found
    exact Option.some.inj found ▸ blank
  cases respaced with
  | ending separator => simpa using heads separator []
  | lexeme separator _ => exact heads separator _

theorem Respaced.divided {faces : List (TokenKind × Text)} {text : Text} (respaced : Respaced (faces.map Prod.snd) text)
    (lexemes : ∀ f ∈ faces, Lexeme f.1 f.2) : Divided text faces := by
  induction faces generalizing text with
  | nil =>
    cases respaced with
    | ending separator => exact .ending separator.1
  | cons face faces ih =>
    obtain ⟨lexeme, others⟩ := List.forall_mem_cons.mp lexemes
    cases respaced with
    | lexeme separator rest =>
      refine .token separator.1 lexeme (lexeme.longest rest.front) ?_ (ih rest others)
      intro _ slash
      exact absurd (rest.front _ slash) (by decide)

/-- Tokens survive when the gaps between them are exchanged for others that begin with a blank. -/
theorem respacing_keeps_tokens {source text : Text}
    (ends : (Token.untilError (Token.all source)).getLast?.map Token.kind = some .eof)
    (respaced : Respaced ((Token.untilError (Token.all source)).dropLast.map Token.lexeme) text) :
    (Token.untilError (Token.all text)).map Token.face = (Token.untilError (Token.all source)).map Token.face := by
  have valid := Token.valid_of_untilError ends
  rw [Token.untilError_eq_self valid] at respaced ⊢
  obtain ⟨lexemes, same⟩ := Token.all_lexemes valid
  have divided : Divided text ((Token.all source).dropLast.map Token.face) := by
    apply Respaced.divided
    · rw [List.map_map]
      exact respaced
    · intro face member
      obtain ⟨t, inside, rfl⟩ := List.mem_map.mp member
      exact lexemes t inside
  have equal : (Token.all text).map Token.face = (Token.all source).map Token.face := divided.all.trans same.symm
  rw [Token.untilError_eq_self, equal]
  intro t member
  obtain ⟨u, inside, face⟩ := List.mem_map.mp (equal ▸ List.mem_map_of_mem (f := Token.face) member)
  rw [← (Prod.mk.inj face).1]
  exact valid u inside

/-- A slash before a string of slashes, spread over several lines. -/
theorem slashes_spread_out :
    let source := utf8 "8/\"//\n\""
    let text := utf8 " 8\t// /\n/ \"//\n\"\r\n"
    (Token.untilError (Token.all source)).getLast?.map Token.kind = some .eof ∧
      (Token.untilError (Token.all text)).map Token.face =
        [(.integer, utf8 "8"), (.slash, utf8 "/"), (.string, utf8 "\"//\n\""), (.eof, [])] := by
  intro source text
  have faces : (Token.untilError (Token.all source)).map Token.face =
      [(.integer, utf8 "8"), (.slash, utf8 "/"), (.string, utf8 "\"//\n\""), (.eof, [])] := by cbv
  have ends : (Token.untilError (Token.all source)).getLast?.map Token.kind = some .eof := by cbv
  have lexemes : (Token.untilError (Token.all source)).dropLast.map Token.lexeme =
      [utf8 "8", utf8 "/", utf8 "\"//\n\""] := by cbv
  have comment : Spacing (0x2F :: 0x2F :: ([0x20, 0x2F] ++ [0x0A])) := .comment (by decide) .nil
  have split : text = utf8 " " ++ (utf8 "8" ++ (0x09 :: 0x2F :: 0x2F :: ([0x20, 0x2F] ++ [0x0A]) ++
      (utf8 "/" ++ (utf8 " " ++ (utf8 "\"//\n\"" ++ utf8 "\r\n"))))) := by decide
  have space : Separator (utf8 " ") := ⟨.blank (by decide) .nil, 0x20, by decide⟩
  refine ⟨ends, (respacing_keeps_tokens ends ?_).trans faces⟩
  rw [lexemes, split]
  refine .lexeme space (.lexeme ⟨.blank (by decide) comment, 0x09, by decide⟩ (.lexeme space (.ending ?_)))
  exact ⟨.blank (by decide) (.blank (by decide) .nil), 0x0D, by decide⟩

end ExprLang
