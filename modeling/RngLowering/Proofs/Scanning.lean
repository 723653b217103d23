import Mathlib.Data.List.DropRight
import RngLowering.Proofs.Lexemes

set_option autoImplicit false

namespace RngLowering

open Lexer

/-- The place after some text: the line counts the line ends in it, and the column counts the characters
after the last of them. -/
def placeAfter (before : List Char) : Pos where
  line := 1 + before.count '\n'
  col := 1 + (before.rtakeWhile (· ≠ '\n')).length

theorem next_placeAfter (before : List Char) (c : Char) :
    (placeAfter before).next c = placeAfter (before ++ [c]) := by
  by_cases newline : c = '\n'
  · simp [Pos.next, placeAfter, newline, List.count_append, Nat.add_assoc]
  · simp [Pos.next, placeAfter, newline, List.count_append, Nat.add_assoc]

theorem after_placeAfter (before text : List Char) :
    (placeAfter before).after text = placeAfter (before ++ text) := by
  induction text generalizing before with
  | nil => simp [Pos.after]
  | cons c rest ih =>
    calc
      (placeAfter before).after (c :: rest) = ((placeAfter before).next c).after rest := rfl
      _ = placeAfter (before ++ [c] ++ rest) := by rw [next_placeAfter, ih]
      _ = placeAfter (before ++ c :: rest) := by simp

/-- How a text is read from a place on. The first argument is the text before it. -/
inductive Scan : List Char → List Char → Except LexError (List PlacedToken) → Prop
  | done {before rest : List Char} (last : LastGap rest) : Scan before rest (.ok [])
  | token {before gap word rest : List Char} {t : Token}
      {outcome : Except LexError (List PlacedToken)} (isGap : Gap gap) (spelled : t.Spelled word)
      (ends : t.EndsBefore rest) (later : Scan (before ++ gap ++ word) rest outcome) :
      Scan before (gap ++ word ++ rest) (outcome.map (⟨t, placeAfter (before ++ gap)⟩ :: ·))
  | broken {before gap rest : List Char} {reason : LexError} (isGap : Gap gap)
      (broken : Broken reason.fault rest)
      (line : FaultLine (placeAfter (before ++ gap)).line rest reason.line) :
      Scan before (gap ++ rest) (.error reason)

theorem Scan.gap {before gap rest : List Char} {outcome : Except LexError (List PlacedToken)}
    (isGap : Gap gap) (scan : Scan (before ++ gap) rest outcome) :
    Scan before (gap ++ rest) outcome := by
  cases scan with
  | done last => exact .done (isGap.append_last last)
  | token more spelled ends later =>
    rw [List.append_assoc before] at later ⊢
    rw [← List.append_assoc gap, ← List.append_assoc gap]
    exact .token (isGap.append more) spelled ends later
  | broken more broken line =>
    rw [List.append_assoc] at line
    rw [← List.append_assoc]
    exact .broken (isGap.append more) broken line

theorem tokensFrom_of_length_le {skip : Nat} {text : List Char} (short : text.length ≤ skip)
    (pos : Pos) : tokensFrom skip pos text = .ok [] := by
  induction text generalizing skip pos with
  | nil => simp [tokensFrom]
  | cons c rest ih =>
    cases skip with
    | zero => cases short
    | succ skip => exact ih (Nat.le_of_succ_le_succ short) (pos.next c)

/-- The characters of a lexeme are skipped. -/
theorem tokensFrom_tail (before : List Char) (c : Char) (tail rest : List Char) :
    tokensFrom tail.length ((placeAfter before).next c) (tail ++ rest) =
      tokensFrom 0 (placeAfter (before ++ c :: tail)) rest := by
  rw [tokensFrom_skip, next_placeAfter, after_placeAfter, List.append_assoc]
  rfl

/-- Reading a text from a place on is a scan of it. -/
theorem scan_tokensFrom (before text : List Char) :
    Scan before text (tokensFrom 0 (placeAfter before) text) := by
  -- what is left gets shorter with each gap and each word
  induction size : text.length using Nat.strongRecOn generalizing before text with
  | ind size ih =>
    cases text with
    | nil => exact .done (.gap .nil)
    | cons c rest =>
      have begins := lexeme_begins (placeAfter before).line c rest
      rw [tokensFrom]
      cases read : lexeme (placeAfter before).line c rest with
      | error reason =>
        rw [read] at begins
        have scan : Scan before ([] ++ c :: rest) (.error reason) :=
          .broken .nil begins.1 (by simpa using begins.2)
        exact scan
      | ok found =>
        rw [read] at begins
        cases found with
        | trivia length =>
          dsimp only
          rcases begins with ⟨tail, more, rfl, isGap, rfl⟩ | ⟨last, short⟩
          · rw [tokensFrom_tail]
            exact .gap isGap (ih more.length (by simp at size; omega) _ _ rfl)
          · rw [tokensFrom_of_length_le short]
            exact .done last
        | token t length =>
          dsimp only
          obtain ⟨tail, more, rfl, spelled, ends, rfl⟩ := begins
          have later := ih more.length (by simp at size; omega) (before ++ c :: tail) more rfl
          have scan : Scan before ([] ++ c :: tail ++ more)
              ((tokensFrom 0 (placeAfter (before ++ c :: tail)) more).map
                (⟨t, placeAfter (before ++ [])⟩ :: ·)) :=
            .token .nil spelled ends (by simpa using later)
          rw [tokensFrom_tail]
          rw [List.append_nil] at scan
          cases outcome : tokensFrom 0 (placeAfter (before ++ c :: tail)) more with
          | error reason =>
            rw [outcome] at scan
            exact scan
          | ok ts =>
            rw [outcome] at scan
            exact scan

theorem tokensFrom_of_trivia {pos : Pos} {c : Char} {rest : List Char} {length : Nat}
    (read : lexeme pos.line c rest = .ok (.trivia length)) :
    tokensFrom 0 pos (c :: rest) = tokensFrom length (pos.next c) rest := by
  rw [tokensFrom, read]

theorem tokensFrom_comment (before : List Char) {inner rest : List Char} (oneLine : '\n' ∉ inner)
    (ends : AtLineEnd rest) :
    tokensFrom 0 (placeAfter before) ('/' :: '/' :: (inner ++ rest)) =
      tokensFrom (inner.length + 2) ((placeAfter before).next '/') ('/' :: (inner ++ rest)) := by
  rw [← commentLength_append oneLine ends]
  exact tokensFrom_of_trivia (lexeme_comment _ _)

/-- A gap holds no tokens. -/
theorem tokensFrom_gap {gap : List Char} (isGap : Gap gap) (before rest : List Char) :
    tokensFrom 0 (placeAfter before) (gap ++ rest) =
      tokensFrom 0 (placeAfter (before ++ gap)) rest := by
  induction isGap generalizing before with
  | nil => rw [List.nil_append, List.append_nil]
  | @blank c more isBlank _ ih =>
    rw [List.cons_append, tokensFrom_blank isBlank, next_placeAfter, ih, List.append_assoc]
    rfl
  | @comment inner more oneLine _ ih =>
    have skipped := tokensFrom_tail before '/' ('/' :: (inner ++ ['\n'])) (more ++ rest)
    have shape : '/' :: '/' :: (inner ++ '\n' :: more) ++ rest =
        '/' :: '/' :: (inner ++ '\n' :: (more ++ rest)) := by simp
    rw [shape, tokensFrom_comment before oneLine (.inr rfl)]
    simp only [List.length_cons, List.length_append, List.length_nil, List.cons_append,
      List.append_assoc, List.nil_append] at skipped
    rw [skipped, ih]
    simp

theorem tokensFrom_lastGap {rest : List Char} (last : LastGap rest) (before : List Char) :
    tokensFrom 0 (placeAfter before) rest = .ok [] := by
  cases last with
  | gap isGap =>
    have read := tokensFrom_gap isGap before []
    rw [List.append_nil] at read
    rw [read, tokensFrom]
  | @comment gap inner isGap oneLine =>
    have read := tokensFrom_comment (before ++ gap) oneLine (.inl rfl)
    rw [List.append_nil] at read
    rw [tokensFrom_gap isGap, read, tokensFrom_of_length_le (by simp)]

/-- A text is read as its scan says. -/
theorem Scan.tokensFrom_eq {before text : List Char} {outcome : Except LexError (List PlacedToken)}
    (scan : Scan before text outcome) : tokensFrom 0 (placeAfter before) text = outcome := by
  induction scan with
  | done last => exact tokensFrom_lastGap last _
  | @token before gap word rest t outcome isGap spelled ends _ ih =>
    obtain ⟨c, tail, rfl⟩ := List.exists_cons_of_ne_nil spelled.ne_nil
    rw [List.append_assoc, tokensFrom_gap isGap, List.cons_append, tokensFrom,
      lexeme_of_spelled _ spelled ends]
    dsimp only
    rw [tokensFrom_tail, ih]
    cases outcome <;> rfl
  | @broken before gap rest reason isGap broken line =>
    obtain ⟨c, tail, rfl⟩ := List.exists_cons_of_ne_nil broken.ne_nil
    obtain ⟨reported, read⟩ := lexeme_of_broken (placeAfter (before ++ gap)).line broken
    have begins := lexeme_begins (placeAfter (before ++ gap)).line c tail
    rw [read] at begins
    rw [tokensFrom_gap isGap, tokensFrom, read]
    rw [show reported = reason.line from begins.2.unique line]

theorem scan_iff {before text : List Char} {outcome : Except LexError (List PlacedToken)} :
    Scan before text outcome ↔ tokensFrom 0 (placeAfter before) text = outcome :=
  ⟨Scan.tokensFrom_eq, fun read => read ▸ scan_tokensFrom before text⟩

/-- A token in a text: the gap before its word, and the word. -/
structure Segment where
  gap : List Char
  word : List Char
  token : Token
  isGap : Gap gap
  spelled : token.Spelled word

def segmentChars (segments : List Segment) : List Char := segments.flatMap fun s => s.gap ++ s.word

/-- No word goes on in the text after it. -/
def Maximal : List Segment → List Char → Prop
  | [], _ => True
  | s :: more, rest => s.token.EndsBefore (segmentChars more ++ rest) ∧ Maximal more rest

/-- The tokens of segments after some text, each at the place of its word. -/
def placedTokens : List Char → List Segment → List PlacedToken
  | _, [] => []
  | before, s :: more =>
    ⟨s.token, placeAfter (before ++ s.gap)⟩ :: placedTokens (before ++ s.gap ++ s.word) more

theorem segmentChars_cons (s : Segment) (more : List Segment) :
    segmentChars (s :: more) = s.gap ++ s.word ++ segmentChars more := rfl

theorem scan_segments {before left : List Char} {segments : List Segment}
    {outcome : Except LexError (List PlacedToken)} (maximal : Maximal segments left)
    (scan : Scan (before ++ segmentChars segments) left outcome) :
    Scan before (segmentChars segments ++ left)
      (outcome.map (placedTokens before segments ++ ·)) := by
  induction segments generalizing before with
  | nil =>
    have same : outcome.map (placedTokens before [] ++ ·) = outcome := by cases outcome <;> rfl
    rw [same]
    simpa [segmentChars] using scan
  | cons s more ih =>
    have later : Scan (before ++ s.gap ++ s.word ++ segmentChars more) left outcome := by
      simpa [segmentChars_cons] using scan
    have token := Scan.token s.isGap s.spelled maximal.1 (ih maximal.2 later)
    rw [segmentChars_cons, List.append_assoc (s.gap ++ s.word)]
    have same : outcome.map (placedTokens before (s :: more) ++ ·) =
        (outcome.map (placedTokens (before ++ s.gap ++ s.word) more ++ ·)).map
          (⟨s.token, placeAfter (before ++ s.gap)⟩ :: ·) := by cases outcome <;> rfl
    rw [same]
    exact token

/-- A scan cuts a text into segments and a rest without tokens. -/
theorem Scan.exists_segments {before text : List Char}
    {outcome : Except LexError (List PlacedToken)} (scan : Scan before text outcome) :
    ∃ segments left, text = segmentChars segments ++ left ∧ Maximal segments left ∧
      (outcome = .ok (placedTokens before segments) ∧ LastGap left ∨
        ∃ gap rest reason, left = gap ++ rest ∧ outcome = .error reason ∧ Gap gap ∧
          Broken reason.fault rest ∧
          FaultLine (placeAfter (before ++ segmentChars segments ++ gap)).line rest reason.line) := by
  induction scan with
  | @done before rest last => exact ⟨[], rest, rfl, trivial, .inl ⟨rfl, last⟩⟩
  | @broken before gap rest reason isGap broken line =>
    refine ⟨[], gap ++ rest, rfl, trivial, .inr ⟨gap, rest, reason, rfl, rfl, isGap, broken, ?_⟩⟩
    simpa [segmentChars] using line
  | @token before gap word rest t outcome isGap spelled ends _ ih =>
    obtain ⟨segments, left, rfl, maximal, ending⟩ := ih
    refine ⟨⟨gap, word, t, isGap, spelled⟩ :: segments, left, ?_, ⟨ends, maximal⟩, ?_⟩
    · rw [segmentChars_cons, List.append_assoc (gap ++ word)]
    · rcases ending with ⟨rfl, last⟩ | ⟨gap', rest', reason, rfl, rfl, isGap', broken, line⟩
      · exact .inl ⟨rfl, last⟩
      · refine .inr ⟨gap', rest', reason, rfl, rfl, isGap', broken, ?_⟩
        simpa [segmentChars_cons] using line

/-- A text has tokens exactly if it is cut into their words and gaps. -/
theorem tokens_eq_ok_iff {text : String} {ts : List PlacedToken} :
    Lexer.tokens text = .ok ts ↔ ∃ segments last, text.toList = segmentChars segments ++ last ∧
      Maximal segments last ∧ LastGap last ∧ ts = placedTokens [] segments := by
  have start : Scan [] text.toList (.ok ts) ↔ Lexer.tokens text = .ok ts := scan_iff
  rw [← start]
  constructor
  · intro scan
    obtain ⟨segments, left, shape, maximal, ⟨same, last⟩ | ⟨_, _, _, _, failed, _⟩⟩ :=
      scan.exists_segments
    · exact ⟨segments, left, shape, maximal, last, Except.ok.inj same⟩
    · cases failed
  · rintro ⟨segments, left, shape, maximal, last, rfl⟩
    have scan : Scan [] (segmentChars segments ++ left) _ := scan_segments maximal (.done last)
    rw [shape]
    simpa [Except.map] using scan

/-- A text has no tokens exactly if it is cut into words and gaps up to a word that is broken. The
error is on the line where this word begins, unless it is a string that its line does not end. Such a
string is reported on the next line. -/
theorem Lexer.tokens_error_iff (text : String) (reason : LexError) :
    Lexer.tokens text = .error reason ↔
      ∃ segments gap rest, text.toList = segmentChars segments ++ gap ++ rest ∧
        Maximal segments (gap ++ rest) ∧ Gap gap ∧ Broken reason.fault rest ∧
        (¬ CutString rest ∧ reason.line = 1 + (segmentChars segments ++ gap).count '\n' ∨
          CutString rest ∧ reason.line = 2 + (segmentChars segments ++ gap).count '\n') := by
  have start : Scan [] text.toList (.error reason) ↔ Lexer.tokens text = .error reason := scan_iff
  have line : ∀ before rest, FaultLine (placeAfter before).line rest reason.line ↔
      ¬ CutString rest ∧ reason.line = 1 + before.count '\n' ∨
        CutString rest ∧ reason.line = 2 + before.count '\n' := by
    intro before rest
    have next : (placeAfter before).line + 1 = 2 + before.count '\n' := by
      change 1 + before.count '\n' + 1 = 2 + before.count '\n'
      omega
    rw [FaultLine, next]
    exact Iff.rfl
  rw [← start]
  constructor
  · intro scan
    obtain ⟨segments, left, shape, maximal, ⟨done, -⟩ | ⟨gap, rest, _, rfl, failed, isGap, broken,
      isLine⟩⟩ := scan.exists_segments
    · cases done
    · cases failed
      refine ⟨segments, gap, rest, by rw [shape, List.append_assoc], maximal, isGap, broken, ?_⟩
      exact (line _ _).mp isLine
  · rintro ⟨segments, gap, rest, shape, maximal, isGap, broken, isLine⟩
    have scan : Scan [] (segmentChars segments ++ (gap ++ rest)) _ :=
      scan_segments maximal (.broken isGap broken ((line _ _).mpr isLine))
    rw [shape, List.append_assoc]
    exact scan

/-- A string that begins on the first line and is not ended there is reported on the second. -/
theorem Lexer.cut_string_line :
    Lexer.tokens "\"open\n\"" = .error ⟨2, .unclosedString⟩ ∧
      Broken .unclosedString "\"open\n\"".toList ∧ (2 : Nat) ≠ 1 + ([] : List Char).count '\n' :=
  have broken : Broken .unclosedString ('"' :: ("open".toList ++ ['\n', '"'])) :=
    .unclosedString (by decide) (by decide) (.inr rfl)
  ⟨by decide +kernel, broken, by decide⟩

end RngLowering
