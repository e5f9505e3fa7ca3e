import ExprLang.Repl.Basic
import Mathlib.Data.List.Induction

/-! Conversations. What is typed divides into parts: commands, and programs of one or more lines, each of which a semicolon or an
empty line closes. There is one such division of the lines, and what is said about them is said part by part: the prompts of
its lines, and the answer to the whole of it. -/

namespace ExprLang.Repl

section Parts

/-- A line that closes a program, of which it is the last one. -/
def completes (line : Text) : Bool :=
  line.trim.getLast? = some 0x3B

def isFarewell (line : Text) : Bool :=
  line = utf8 "exit" || line = utf8 "quit"

def isCommand (line : Text) : Bool :=
  line.head? = some 0x3A

theorem completes_visible {line : Text} (closes : completes line = true) : line ≠ [] := by
  rintro rfl
  exact absurd closes (by decide)

theorem command_stays {line : Text} (starts : isCommand line = true) : isFarewell line = false := by
  cases leaves : isFarewell line with
  | false => rfl
  | true =>
    obtain rfl | rfl : line = utf8 "exit" ∨ line = utf8 "quit" := by simpa [isFarewell] using leaves
    all_goals exact absurd starts (by decide)

/-- Lines of a program that is not closed yet. The first one is neither a command nor a farewell. -/
structure Pending (lines : List Text) : Prop where
  unclosed : ∀ line ∈ lines, line ≠ [] ∧ completes line = false
  opening : ∀ line ∈ lines.head?, isFarewell line = false ∧ isCommand line = false

theorem pending_nil : Pending [] :=
  ⟨by simp, by simp⟩

theorem pending_concat_iff {front : List Text} {line : Text} :
    Pending (front ++ [line]) ↔
      Pending front ∧ (line ≠ [] ∧ completes line = false) ∧ (front = [] → isFarewell line = false ∧ isCommand line = false) := by
  constructor
  · rintro ⟨unclosed, opening⟩
    refine ⟨⟨fun other member => unclosed other (by simp [member]), ?_⟩, unclosed line (by simp), ?_⟩
    · cases front with
      | nil => simp
      | cons first more => exact opening
    · rintro rfl
      exact opening line rfl
  · rintro ⟨⟨unclosed, opening⟩, last, opens⟩
    refine ⟨?_, ?_⟩
    · intro other member
      rcases List.mem_append.mp member with member | member
      · exact unclosed other member
      · obtain rfl := List.mem_singleton.mp member
        exact last
    · cases front with
      | nil =>
        intro other first
        obtain rfl : line = other := by simpa using first
        exact opens rfl
      | cons first more => exact opening

theorem join_isEmpty {front : List Text} (pending : Pending front) :
    (Text.join [Text.newline] front).isEmpty = front.isEmpty := by
  rcases front with _ | ⟨line, _ | ⟨next, more⟩⟩
  · rfl
  · have first := (pending.unclosed line (by simp)).1
    simpa [Text.join] using first
  · simp [Text.join]

/-- A part of what is typed: a command, a program with its last line, or the lines of one with an empty line behind them. -/
inductive Part where
  | command (line : Text)
  | completed (front : List Text) (last : Text)
  | flushed (front : List Text)

/-- How a conversation ends: by a farewell, behind which nothing is read, or with the input, where lines may be pending. -/
inductive Exit where
  | farewell (line : Text) (unread : List Text)
  | endOfInput (pending : List Text)

namespace Part

def lines : Part → List Text
  | command line => [line]
  | completed front last => front ++ [last]
  | flushed front => front ++ [[]]

def WellFormed : Part → Prop
  | command line => isCommand line = true
  | completed front last =>
    Pending front ∧ completes last = true ∧ (front = [] → isFarewell last = false ∧ isCommand last = false)
  | flushed front => Pending front

/-- The program that a part gives to the interpreter. -/
def program? : Part → Option Text
  | command _ => none
  | completed front last => some (Text.join [Text.newline] (front ++ [last]))
  | flushed front =>
    let program := (Text.join [Text.newline] front).trim
    if program = [] then none else some program

end Part

namespace Exit

def lines : Exit → List Text
  | farewell line unread => line :: unread
  | endOfInput pending => pending

def WellFormed : Exit → Prop
  | farewell line _ => isFarewell line = true
  | endOfInput pending => Pending pending

end Exit

end Parts

section Transcript

/-- The prompt for a line behind so many others of the same program. -/
def promptBehind (n : Nat) : Text :=
  if n = 0 then utf8 ">> " else utf8 ".. "

/-- The prompts for so many lines of one part. -/
def prompts (n : Nat) : List Output :=
  (List.range n).map fun k => ⟨.result, promptBehind k⟩

/-- What is said about a part. -/
def Part.shown (s : Setting) (name : Text) : Part → List Output
  | command line => prompts 1 ++ [⟨.result, Repl.command s.color (line.drop 1)⟩]
  | p => prompts p.lines.length ++ (p.program?.map (s.run name)).getD []

/-- What is said at the end. Only the end of the input is answered, by a line break behind the last prompt. -/
def Exit.shown : Exit → List Output
  | farewell _ _ => prompts 1
  | endOfInput pending => prompts pending.length ++ [⟨.result, promptBehind pending.length ++ [Text.newline]⟩]

def greeting (s : Setting) : Output :=
  ⟨.result, Ink.note.line s.color banner⟩

/-- The conversation about the lines of an input. -/
def transcript (s : Setting) (name : Text) (input : List Text) : List Output :=
  (converseInto s name #[greeting s] [] input).toList

end Transcript

section Answers
variable (s : Setting) (name : Text)

theorem answer_farewell {line : Text} (farewell : isFarewell line = true) : answer s name [] line = ⟨[], none⟩ := by
  unfold isFarewell at farewell
  simp [answer, farewell]

theorem answer_command {line : Text} (starts : isCommand line = true) :
    answer s name [] line = ⟨[⟨.result, command s.color (line.drop 1)⟩], some []⟩ := by
  have colon : line.head? = some 0x3A := by simpa [isCommand] using starts
  have stays := command_stays starts
  simp only [isFarewell] at stays
  simp [answer, colon, stays]

theorem answer_empty (collected : Text) :
    answer s name collected [] = ⟨if collected.trim = [] then [] else s.run name collected.trim, some []⟩ := by
  have words : utf8 "exit" ≠ [] ∧ utf8 "quit" ≠ [] := by decide
  simp [answer, words]

theorem answer_line {front : List Text} (pending : Pending front) {line : Text} (visible : line ≠ [])
    (opens : front = [] → isFarewell line = false ∧ isCommand line = false) :
    answer s name (Text.join [Text.newline] front) line =
      if completes line = true then ⟨s.run name (Text.join [Text.newline] (front ++ [line])), some []⟩
      else ⟨[], some (Text.join [Text.newline] (front ++ [line]))⟩ := by
  have nothing := join_isEmpty pending
  cases front with
  | nil =>
    obtain ⟨stays, plain⟩ := opens rfl
    simp only [isFarewell, Bool.or_eq_false_iff, decide_eq_false_iff_not, isCommand] at stays plain
    simp [answer, Text.join, stays, plain, visible, completes]
  | cons first more =>
    have longer := Text.join_concat [Text.newline] (List.cons_ne_nil first more) line
    simp only [answer, nothing, longer]
    simp [visible, completes]

end Answers

section Loop
variable (s : Setting) (name : Text)

/-- What is said about lines, and what is collected behind them unless the conversation is over. -/
def spoken (collected : Text) : List Text → List Output × Option Text
  | [] => ([], some collected)
  | line :: more =>
    let reply := answer s name collected line
    let said := ⟨.result, prompt collected⟩ :: reply.outputs
    match reply.collected with
    | none => (said, none)
    | some collected => (said ++ (spoken collected more).1, (spoken collected more).2)

/-- What is said when the input ends. -/
def lastWords (collected : Option Text) : List Output :=
  (collected.map fun c => ⟨.result, prompt c ++ [Text.newline]⟩).toList

theorem converseInto_eq (said : Array Output) (collected : Text) (input : List Text) :
    (converseInto s name said collected input).toList =
      said.toList ++ (spoken s name collected input).1 ++ lastWords (spoken s name collected input).2 := by
  induction input generalizing said collected with
  | nil => simp [converseInto, spoken, lastWords]
  | cons line more ih =>
    simp only [converseInto, spoken]
    cases (answer s name collected line).collected with
    | none => simp [lastWords]
    | some collected' => simp [ih]

theorem spoken_append {collected collected' : Text} {front : List Text} {said : List Output}
    (begun : spoken s name collected front = (said, some collected')) (behind : List Text) :
    spoken s name collected (front ++ behind) =
      (said ++ (spoken s name collected' behind).1, (spoken s name collected' behind).2) := by
  induction front generalizing collected said with
  | nil =>
    obtain ⟨rfl, goesOn⟩ := Prod.mk.inj begun
    obtain rfl := Option.some.inj goesOn
    rfl
  | cons line more ih =>
    simp only [List.cons_append, spoken] at begun ⊢
    cases next : (answer s name collected line).collected with
    | none => simp [next] at begun
    | some collected'' =>
      simp only [next, Prod.mk.injEq] at begun ⊢
      obtain ⟨rfl, goesOn⟩ := begun
      simp [ih (Prod.ext rfl goesOn)]

end Loop

section Said
variable (s : Setting) (name : Text)

theorem prompt_pending {front : List Text} (pending : Pending front) :
    prompt (Text.join [Text.newline] front) = promptBehind front.length := by
  rw [prompt, join_isEmpty pending, promptBehind]
  cases front <;> rfl

theorem prompts_succ (n : Nat) : prompts (n + 1) = prompts n ++ [⟨.result, promptBehind n⟩] := by
  simp [prompts, List.range_succ]

/-- Lines that are only collected are answered by prompts. -/
theorem spoken_pending {front : List Text} (pending : Pending front) :
    spoken s name [] front = (prompts front.length, some (Text.join [Text.newline] front)) := by
  -- Lines are collected at the end, so that the last one is taken off.
  induction front using List.reverseRecOn with
  | nil => rfl
  | append_singleton front line ih =>
    obtain ⟨before, ⟨visible, unclosed⟩, opens⟩ := pending_concat_iff.mp pending
    rw [spoken_append s name (ih before)]
    simp [spoken, answer_line s name before visible opens, unclosed, prompt_pending before, prompts_succ]

theorem spoken_part {p : Part} (wellFormed : p.WellFormed) : spoken s name [] p.lines = (p.shown s name, some []) := by
  cases p with
  | command line => simp [Part.lines, spoken, answer_command s name wellFormed, Part.shown, prompts, prompt, promptBehind]
  | completed front last =>
    obtain ⟨pending, closes, opens⟩ := wellFormed
    rw [Part.lines, spoken_append s name (spoken_pending s name pending)]
    simp [spoken, answer_line s name pending (completes_visible closes) opens, closes, prompt_pending pending, prompts_succ, Part.shown,
      Part.lines, Part.program?]
  | flushed front =>
    rw [Part.lines, spoken_append s name (spoken_pending s name wellFormed)]
    by_cases blank : (Text.join [Text.newline] front).trim = [] <;>
      simp [spoken, answer_empty, prompt_pending wellFormed, prompts_succ, Part.shown, Part.lines, Part.program?, blank]

theorem spoken_parts {parts : List Part} (wellFormed : ∀ p ∈ parts, p.WellFormed) :
    spoken s name [] (parts.flatMap Part.lines) = (parts.flatMap (Part.shown s name), some []) := by
  induction parts with
  | nil => rfl
  | cons p parts ih =>
    have first := spoken_part s name (wellFormed p (by simp))
    have others := ih fun p member => wellFormed p (by simp [member])
    simp only [List.flatMap_cons]
    rw [spoken_append s name first, others]

theorem spoken_exit {e : Exit} (wellFormed : e.WellFormed) :
    (spoken s name [] e.lines).1 ++ lastWords (spoken s name [] e.lines).2 = e.shown := by
  cases e with
  | farewell line unread =>
    simp [Exit.lines, spoken, answer_farewell s name wellFormed, Exit.shown, prompts, prompt, promptBehind, lastWords]
  | endOfInput pending =>
    simp [Exit.lines, spoken_pending s name wellFormed, Exit.shown, lastWords, prompt_pending wellFormed]

end Said

section Division

/-- The parts and the exit into which an input divides. -/
structure Divides (input : List Text) (parts : List Part) (exit : Exit) : Prop where
  proper : ∀ p ∈ parts, p.WellFormed
  ends : exit.WellFormed
  whole : input = parts.flatMap Part.lines ++ exit.lines

/-- Divides an input, some lines of which are pending. -/
def divide (pending : List Text) : List Text → List Part × Exit
  | [] => ([], .endOfInput pending)
  | line :: more =>
    if pending = [] ∧ isFarewell line then ([], .farewell line more)
    else if pending = [] ∧ isCommand line then (.command line :: (divide [] more).1, (divide [] more).2)
    else if line = [] then (.flushed pending :: (divide [] more).1, (divide [] more).2)
    else if completes line then (.completed pending line :: (divide [] more).1, (divide [] more).2)
    else divide (pending ++ [line]) more

theorem Divides.cons {p : Part} {input : List Text} {parts : List Part} {exit : Exit} (proper : p.WellFormed)
    (behind : Divides input parts exit) : Divides (p.lines ++ input) (p :: parts) exit := by
  refine ⟨?_, behind.ends, ?_⟩
  · simpa [proper] using behind.proper
  · simp [behind.whole]

theorem divide_divides {front : List Text} (pending : Pending front) (input : List Text) :
    Divides (front ++ input) (divide front input).1 (divide front input).2 := by
  induction input generalizing front with
  | nil => exact ⟨by simp [divide], pending, by simp [divide, Exit.lines]⟩
  | cons line more ih =>
    have next := ih pending_nil
    unfold divide
    split
    next farewell =>
      obtain ⟨rfl, leaves⟩ := farewell
      exact ⟨by simp, leaves, by simp [Exit.lines]⟩
    split
    next command =>
      obtain ⟨rfl, starts⟩ := command
      exact next.cons (p := .command line) starts
    next stays plain =>
    -- From here on the line belongs to the program that is pending, or begins one.
    have opens : front = [] → isFarewell line = false ∧ isCommand line = false := by
      rintro rfl
      simpa using And.intro stays plain
    split
    next empty =>
      subst empty
      simpa [Part.lines] using next.cons (p := .flushed front) pending
    split
    next closes =>
      simpa [Part.lines] using next.cons (p := .completed front line) ⟨pending, closes, opens⟩
    next visible unclosed =>
      have longer : Pending (front ++ [line]) := pending_concat_iff.mpr ⟨pending, ⟨visible, by simpa using unclosed⟩, opens⟩
      simpa using ih longer

theorem divide_line {front : List Text} {line : Text} (opens : front = [] → isFarewell line = false ∧ isCommand line = false)
    (rest : List Text) :
    divide front (line :: rest) =
      if line = [] then (.flushed front :: (divide [] rest).1, (divide [] rest).2)
      else if completes line then (.completed front line :: (divide [] rest).1, (divide [] rest).2)
      else divide (front ++ [line]) rest := by
  have stays : ¬ (front = [] ∧ isFarewell line = true) := fun ⟨first, leaves⟩ => by simp [opens first] at leaves
  have plain : ¬ (front = [] ∧ isCommand line = true) := fun ⟨first, starts⟩ => by simp [opens first] at starts
  rw [divide, if_neg stays, if_neg plain]

theorem divide_pending {front : List Text} (pending : Pending front) (rest : List Text) :
    divide [] (front ++ rest) = divide front rest := by
  induction front using List.reverseRecOn generalizing rest with
  | nil => rfl
  | append_singleton front line ih =>
    obtain ⟨before, ⟨visible, unclosed⟩, opens⟩ := pending_concat_iff.mp pending
    rw [List.append_assoc, ih before, List.singleton_append, divide_line opens]
    simp [visible, unclosed]

theorem divide_part {p : Part} (proper : p.WellFormed) (rest : List Text) :
    divide [] (p.lines ++ rest) = (p :: (divide [] rest).1, (divide [] rest).2) := by
  cases p with
  | command line =>
    have starts : isCommand line = true := proper
    simp [Part.lines, divide, starts, command_stays starts]
  | completed front last =>
    obtain ⟨pending, closes, opens⟩ := proper
    rw [Part.lines, List.append_assoc, divide_pending pending, List.singleton_append, divide_line opens]
    simp [closes, completes_visible closes]
  | flushed front =>
    rw [Part.lines, List.append_assoc, divide_pending proper, List.singleton_append, divide_line fun _ => by decide]
    simp

theorem divide_exit {exit : Exit} (ends : exit.WellFormed) : divide [] exit.lines = ([], exit) := by
  cases exit with
  | farewell line unread =>
    have leaves : isFarewell line = true := ends
    simp [Exit.lines, divide, leaves]
  | endOfInput pending => simpa [divide, Exit.lines] using divide_pending ends []

theorem divides_iff {input : List Text} {parts : List Part} {exit : Exit} :
    Divides input parts exit ↔ parts = (divide [] input).1 ∧ exit = (divide [] input).2 := by
  constructor
  · rintro ⟨proper, ends, rfl⟩
    induction parts with
    | nil => simp [divide_exit ends]
    | cons p parts ih =>
      obtain ⟨same, same'⟩ := ih fun p member => proper p (by simp [member])
      simp only [List.flatMap_cons, List.append_assoc, divide_part (proper p (by simp)), ← same, ← same', and_self]
  · rintro ⟨rfl, rfl⟩
    exact divide_divides pending_nil input

theorem Divides.append {input more : List Text} {parts parts' : List Part} {exit : Exit}
    (first : Divides input parts (.endOfInput [])) (second : Divides more parts' exit) :
    Divides (input ++ more) (parts ++ parts') exit := by
  refine ⟨?_, second.ends, ?_⟩
  · intro p member
    rcases List.mem_append.mp member with member | member
    · exact first.proper p member
    · exact second.proper p member
  · simp [first.whole, second.whole, Exit.lines]

theorem Divides.transcript_eq {input : List Text} {parts : List Part} {exit : Exit} (divides : Divides input parts exit)
    (s : Setting) (name : Text) :
    transcript s name input = greeting s :: (parts.flatMap (Part.shown s name) ++ exit.shown) := by
  rw [transcript, converseInto_eq, divides.whole, spoken_append s name (spoken_parts s name divides.proper)]
  simp [spoken_exit s name divides.ends]

theorem Divides.transcript_append {input : List Text} {parts : List Part} (finished : Divides input parts (.endOfInput []))
    (s : Setting) (name : Text) (more : List Text) :
    ∃ body rest, transcript s name input = body ++ [⟨.result, utf8 ">> \n"⟩] ∧ transcript s name more = greeting s :: rest ∧
      transcript s name (input ++ more) = body ++ rest := by
  have behind : Divides more _ _ := divides_iff.mpr ⟨rfl, rfl⟩
  refine ⟨greeting s :: parts.flatMap (Part.shown s name), _, ?_, behind.transcript_eq s name, ?_⟩
  · rw [finished.transcript_eq]
    rfl
  · rw [(finished.append behind).transcript_eq]
    simp

end Division

section Reading

/-- A line that is read as it is typed. -/
structure Readable (line : Text) : Prop where
  single : Text.newline ∉ line
  fits : line.length < maxLine
  bare : line.getLast? ≠ some 0x0D

theorem dropReturn_bare {line : Text} (bare : line.getLast? ≠ some 0x0D) : dropReturn line.toArray = line := by
  simp [dropReturn, bare]

theorem linesInto_line (read : Array Text) (start : Array UInt8) {line : Text} (single : Text.newline ∉ line) (rest : Text) :
    linesInto read start (line ++ Text.newline :: rest) =
      if maxLine ≤ start.size + line.length then read else linesInto (read.push (dropReturn (start ++ line.toArray))) #[] rest := by
  induction line generalizing start with
  | nil => simp [linesInto]
  | cons b line ih =>
    simp only [List.mem_cons, not_or] at single
    simp [linesInto, Ne.symm single.1, ih _ single.2, Nat.add_assoc, Nat.add_comm 1]

theorem lines_lines {input : List Text} (readable : ∀ line ∈ input, Readable line) : lines (Text.lines input) = input := by
  have step (read : Array Text) : (linesInto read #[] (Text.lines input)).toList = read.toList ++ input := by
    induction input generalizing read with
    | nil => simp [Text.lines, linesInto]
    | cons line more ih =>
      obtain ⟨single, fits, bare⟩ := readable line (by simp)
      have others := ih (fun line member => readable line (by simp [member]))
      have split : Text.lines (line :: more) = line ++ Text.newline :: Text.lines more := by simp [Text.lines]
      rw [split, linesInto_line _ _ single]
      simp [Nat.not_le.mpr fits, others, dropReturn_bare bare]
  simpa [lines] using step #[]

end Reading

/-- Every input divides in one way into parts and an exit, and is answered part by part. Behind a last part nothing is left of what
was typed before, so that a conversation goes on as a new one begins. -/
theorem conversation_by_parts (s : Setting) (name : Text) (input : List Text) :
    ∃ parts exit, (∀ parts' exit', Divides input parts' exit' ↔ parts' = parts ∧ exit' = exit) ∧
      transcript s name input = greeting s :: (parts.flatMap (Part.shown s name) ++ exit.shown) ∧
      (exit = .endOfInput [] → ∀ more, ∃ body rest,
        transcript s name input = body ++ [⟨.result, utf8 ">> \n"⟩] ∧ transcript s name more = greeting s :: rest ∧
          transcript s name (input ++ more) = body ++ rest) ∧
      ((∀ line ∈ input, Readable line) → converse s name (Text.lines input) = transcript s name input) := by
  have divides : Divides input _ _ := divides_iff.mpr ⟨rfl, rfl⟩
  refine ⟨_, _, fun _ _ => divides_iff, divides.transcript_eq s name, ?_, ?_⟩
  · intro finished more
    exact (finished ▸ divides).transcript_append s name more
  · intro readable
    rw [converse, lines_lines readable]
    rfl

/-- A program of two lines, a command and an empty line; then a farewell, behind which a line is not read. -/
theorem conversation_resumed :
    let s : Setting := ⟨{}, false⟩
    let program := Part.completed [utf8 "1"] (utf8 "+2;")
    let request := Part.command (utf8 ":?")
    let input := [utf8 "1", utf8 "+2;", utf8 ":?", []]
    let more := [utf8 "exit", utf8 "3"]
    let said := greeting s :: (program.shown s [] ++ request.shown s [] ++ [⟨.result, utf8 ">> "⟩])
    converse s [] (Text.lines input) = said ++ [⟨.result, utf8 ">> \n"⟩] ∧
      transcript s [] more = [greeting s, ⟨.result, utf8 ">> "⟩] ∧ transcript s [] (input ++ more) = said ++ [⟨.result, utf8 ">> "⟩] := by
  intro s program request input more said
  obtain ⟨parts, exit, divided, spoken, goesOn, read⟩ := conversation_by_parts s [] input
  have wellFormed : ∀ p ∈ [program, request, .flushed []], p.WellFormed := by
    have pending : Pending [utf8 "1"] := ⟨by decide, by decide⟩
    have completed : program.WellFormed := ⟨pending, by decide, by decide⟩
    have asked : isCommand (utf8 ":?") = true := by decide
    simpa [program, request, Part.WellFormed, asked, pending_nil] using completed
  obtain ⟨rfl, rfl⟩ : [program, request, .flushed []] = parts ∧ Exit.endOfInput [] = exit :=
    (divided _ _).mp ⟨wellFormed, pending_nil, rfl⟩
  have readable : ∀ line ∈ input, Readable line := by
    have plain : ∀ line ∈ input, Text.newline ∉ line ∧ line.length < maxLine ∧ line.getLast? ≠ some 0x0D := by decide
    intro line member
    obtain ⟨single, fits, bare⟩ := plain line member
    exact ⟨single, fits, bare⟩
  obtain ⟨body, rest, whole, later, both⟩ := goesOn rfl more
  have all : transcript s [] input = said ++ [⟨.result, utf8 ">> \n"⟩] := by
    have flushed : Part.shown s [] (.flushed []) = [⟨.result, utf8 ">> "⟩] := by decide
    have ended : (Exit.endOfInput []).shown = [⟨.result, utf8 ">> \n"⟩] := by decide
    simp [spoken, said, flushed, ended]
  have left : transcript s [] more = [greeting s, ⟨.result, utf8 ">> "⟩] := by decide
  obtain rfl : said = body := List.append_cancel_right (all.symm.trans whole)
  obtain rfl : [⟨.result, utf8 ">> "⟩] = rest := (List.cons.inj (left.symm.trans later)).2
  exact ⟨(read readable).trans all, left, both⟩

end ExprLang.Repl
