import RngLowering.Program.Printer
import RngLowering.Proofs.Lexing

set_option autoImplicit false

namespace RngLowering

open Lexer

def Pos.after (pos : Pos) (text : List Char) : Pos := text.foldl Pos.next pos

theorem Pos.line_after {text : List Char} (clean : '\n' ∉ text) (pos : Pos) :
    (pos.after text).line = pos.line := by
  induction text generalizing pos with
  | nil => rfl
  | cons c rest ih =>
    simp only [List.mem_cons, not_or] at clean
    change ((pos.next c).after rest).line = pos.line
    rw [ih clean.2]
    simp [Pos.next, Ne.symm clean.1]

theorem tokensFrom_skip (text : List Char) (pos : Pos) (rest : List Char) :
    tokensFrom text.length pos (text ++ rest) = tokensFrom 0 (pos.after text) rest := by
  induction text generalizing pos with
  | nil => rfl
  | cons c more ih => exact ih (pos.next c)

theorem tokensFrom_blank {c : Char} (blank : Text.isBlank c = true) (pos : Pos) (rest : List Char) :
    tokensFrom 0 pos (c :: rest) = tokensFrom 0 (pos.next c) rest := by
  simp [tokensFrom, lexeme, blank]

theorem tokensFrom_blanks {blanks : List Char} (all : ∀ c ∈ blanks, Text.isBlank c = true)
    (pos : Pos) (rest : List Char) :
    tokensFrom 0 pos (blanks ++ rest) = tokensFrom 0 (pos.after blanks) rest := by
  induction blanks generalizing pos with
  | nil => rfl
  | cons c more ih =>
    rw [List.cons_append, tokensFrom_blank (all c (by simp)),
      ih fun d mem => all d (by simp [mem])]
    rfl

theorem Token.text_ne_nil {t : Token} (proper : t.Proper) : t.text.toList ≠ [] := by
  cases t with
  | ident word =>
    obtain ⟨c, name, params, shape, -⟩ := proper
    change word.toList ≠ []
    simp [shape]
  | symbol name => simp [Token.text]
  | value name => simp [Token.text]
  | int n => simp [Token.text]
  | str inner => simp [Token.text]
  | _ => decide

theorem not_isNameChar_newline {c : Char} (name : isNameChar c = true) : c ≠ '\n' := by
  rintro rfl
  exact absurd name (by decide)

theorem Token.newline_not_mem_text {t : Token} (proper : t.Proper) : '\n' ∉ t.text.toList := by
  cases t with
  | ident word =>
    obtain ⟨c, name, params, shape, start, chars, group⟩ := proper
    change '\n' ∉ word.toList
    rw [shape]
    simp only [List.mem_cons, List.mem_append, not_or]
    refine ⟨?_, fun mem => not_isNameChar_newline (chars _ mem) rfl, ?_⟩
    · rintro rfl
      exact absurd start (by decide)
    · rcases group with rfl | ⟨-, closed⟩
      · simp
      · exact not_mem_of_group closed
  | symbol name =>
    intro mem
    have inside : '\n' ∈ name.toList := by simpa [Token.text] using mem
    exact not_isNameChar_newline (proper.chars _ inside) rfl
  | value name =>
    intro mem
    have inside : '\n' ∈ name.toList := by simpa [Token.text] using mem
    exact not_isNameChar_newline (proper.chars _ inside) rfl
  | int n =>
    intro mem
    have inside : '\n' ∈ Nat.toDigits 10 n := by simpa [Token.text] using mem
    exact absurd (Numeral.isDigit_of_mem_toDigits inside) (by decide)
  | str inner =>
    intro mem
    have inside : '\n' ∈ inner.toList := by simpa [Token.text] using mem
    exact (proper _ inside).2 rfl
  | _ => decide

/-- The text of a mark ends the token before it. -/
theorem Token.stops_of_isMark {t : Token} (mark : t.isMark = true) (rest : List Char) :
    Stops (t.text.toList ++ rest) := by
  intro c head
  cases t with
  | equals => cases head; decide
  | comma => cases head; decide
  | colon => cases head; decide
  | lparen => cases head; decide
  | rparen => cases head; decide
  | lbrace => cases head; decide
  | rbrace => cases head; decide
  | _ => cases mark

theorem tokensFrom_text {t : Token} (proper : t.Proper) (pos : Pos) {rest : List Char}
    (ends : t.isMark = true ∨ Stops rest) {ts : List PlacedToken}
    (later : tokensFrom 0 (pos.after t.text.toList) rest = .ok ts) :
    tokensFrom 0 pos (t.text.toList ++ rest) = .ok (⟨t, pos⟩ :: ts) := by
  cases written : t.text.toList with
  | nil => exact absurd written (Token.text_ne_nil proper)
  | cons c tail =>
    rw [written] at later
    simp only [List.cons_append, tokensFrom, lexeme_text pos.line proper written ends]
    rw [tokensFrom_skip]
    simp only [Pos.after, List.foldl_cons] at later ⊢
    rw [later]

/-- Tokens that stand on one line. -/
structure OnLine (line : Nat) (tokens : List Token) (placed : List PlacedToken) : Prop where
  tokens : placed.map PlacedToken.token = tokens
  lines : ∀ t ∈ placed, t.line = line

@[simp] theorem Piece.token_spaced (t : Token) : (Piece.spaced t).token = t := rfl

@[simp] theorem Piece.token_tight (t : Token) : (Piece.tight t).token = t := rfl

/-- Does the piece end the token before it? -/
def Piece.breaks : Piece → Bool
  | .spaced _ => true
  | .tight token => token.isMark

/-- Are the pieces kept apart? `open_` says that anything may come first. -/
def KeptApart : Bool → List Piece → Prop
  | _, [] => True
  | open_, piece :: rest =>
    (open_ = true ∨ piece.breaks = true) ∧ KeptApart piece.token.isMark rest

theorem KeptApart.weaken {pieces : List Piece} (apart : KeptApart false pieces) (open_ : Bool) :
    KeptApart open_ pieces := by
  cases pieces with
  | nil => trivial
  | cons piece rest =>
    refine ⟨?_, apart.2⟩
    rcases apart.1 with absurd | breaks
    · cases absurd
    · exact Or.inr breaks

theorem KeptApart.append {open_ : Bool} {first second : List Piece} (left : KeptApart open_ first)
    (right : KeptApart false second) : KeptApart open_ (first ++ second) := by
  induction first generalizing open_ with
  | nil => exact right.weaken open_
  | cons piece rest ih => exact ⟨left.1, ih left.2⟩

def pieceChars (pieces : List Piece) : List Char := pieces.flatMap fun piece => piece.text.toList

theorem Piece.stops_of_breaks {piece : Piece} (breaks : piece.breaks = true) (rest : List Char) :
    Stops (piece.text.toList ++ rest) := by
  cases piece with
  | spaced token =>
    intro c head
    have space : c = ' ' := by simpa [Piece.text] using head.symm
    rw [space]
    decide
  | tight token => exact Token.stops_of_isMark breaks rest

theorem stops_newline (rest : List Char) : Stops ('\n' :: rest) := by
  intro c head
  cases head
  decide

/-- What comes after a token of a line cannot be taken for more of it. -/
theorem stops_pieces {pieces : List Piece} (apart : KeptApart false pieces) (rest : List Char) :
    Stops (pieceChars pieces ++ '\n' :: rest) := by
  cases pieces with
  | nil => exact stops_newline rest
  | cons piece more =>
    rcases apart.1 with absurd | breaks
    · cases absurd
    · simp only [pieceChars, List.flatMap_cons, List.append_assoc]
      exact Piece.stops_of_breaks breaks _

theorem OnLine.cons {line : Nat} {tokens : List Token} {placed : List PlacedToken}
    (rest : OnLine line tokens placed) {t : Token} {pos : Pos} (here : pos.line = line) :
    OnLine line (t :: tokens) (⟨t, pos⟩ :: placed) := by
  constructor
  · simp [rest.tokens]
  · intro other mem
    rcases List.mem_cons.mp mem with rfl | inside
    · exact here
    · exact rest.lines other inside

theorem OnLine.of_nil {line : Nat} {placed : List PlacedToken} (onLine : OnLine line [] placed) :
    placed = [] :=
  List.map_eq_nil_iff.mp onLine.tokens

theorem OnLine.of_cons {line : Nat} {t : Token} {tokens : List Token} {placed : List PlacedToken}
    (onLine : OnLine line (t :: tokens) placed) :
    ∃ pos rest, placed = ⟨t, pos⟩ :: rest ∧ pos.line = line ∧ OnLine line tokens rest := by
  cases placed with
  | nil => cases onLine.tokens
  | cons head rest =>
    have same := List.cons.inj onLine.tokens
    refine ⟨head.pos, rest, ?_, onLine.lines head (by simp), same.2, ?_⟩
    · rw [← same.1]
    · exact fun other mem => onLine.lines other (by simp [mem])

theorem OnLine.of_append {line : Nat} {first second : List Token} {placed : List PlacedToken}
    (onLine : OnLine line (first ++ second) placed) :
    ∃ left right, placed = left ++ right ∧ OnLine line first left ∧ OnLine line second right := by
  induction first generalizing placed with
  | nil => exact ⟨[], placed, rfl, ⟨rfl, by simp⟩, onLine⟩
  | cons t rest ih =>
    obtain ⟨pos, more, rfl, here, later⟩ := OnLine.of_cons onLine
    obtain ⟨left, right, rfl, onLeft, onRight⟩ := ih later
    exact ⟨⟨t, pos⟩ :: left, right, rfl, onLeft.cons here, onRight⟩

/-- Pieces up to the end of their line are read as their tokens. -/
theorem tokensFrom_pieces {open_ : Bool} {pieces : List Piece} (apart : KeptApart open_ pieces)
    (proper : ∀ piece ∈ pieces, piece.token.Proper) (pos : Pos) :
    ∃ placed, OnLine pos.line (pieces.map Piece.token) placed ∧
      ∀ rest ts, tokensFrom 0 ⟨pos.line + 1, 1⟩ rest = .ok ts →
        tokensFrom 0 pos (pieceChars pieces ++ '\n' :: rest) = .ok (placed ++ ts) := by
  induction pieces generalizing open_ pos with
  | nil =>
    refine ⟨[], ⟨rfl, by simp⟩, ?_⟩
    intro rest ts later
    exact (tokensFrom_blank (by decide) pos rest).trans later
  | cons piece more ih =>
    have properHead : piece.token.Proper := proper piece (by simp)
    have clean := Token.newline_not_mem_text properHead
    -- A spaced piece is a blank and then its token.
    obtain ⟨start, sameLine, skipped⟩ : ∃ start : Pos, start.line = pos.line ∧ ∀ rest,
        tokensFrom 0 pos (piece.text.toList ++ rest) =
          tokensFrom 0 start (piece.token.text.toList ++ rest) := by
      cases piece with
      | spaced token =>
        refine ⟨pos.next ' ', rfl, fun rest => ?_⟩
        simpa [Piece.text, Piece.token] using
          tokensFrom_blank (by decide) pos (token.text.toList ++ rest)
      | tight token => exact ⟨pos, rfl, fun rest => rfl⟩
    have sameAfter : (start.after piece.token.text.toList).line = pos.line := by
      rw [Pos.line_after clean, sameLine]
    obtain ⟨placed, onLine, read⟩ := ih apart.2 (fun other mem => proper other (by simp [mem]))
      (start.after piece.token.text.toList)
    rw [sameAfter] at onLine read
    refine ⟨⟨piece.token, start⟩ :: placed, onLine.cons sameLine, ?_⟩
    intro rest ts later
    have ends : piece.token.isMark = true ∨ Stops (pieceChars more ++ '\n' :: rest) := by
      cases mark : piece.token.isMark with
      | true => exact Or.inl rfl
      | false =>
        have apartMore := apart.2
        rw [mark] at apartMore
        exact Or.inr (stops_pieces apartMore rest)
    simp only [pieceChars, List.flatMap_cons, List.append_assoc]
    rw [skipped]
    exact tokensFrom_text properHead start ends (read rest ts later)

structure Line.Legible (line : Line) : Prop where
  apart : KeptApart true line.pieces
  proper : ∀ piece ∈ line.pieces, piece.token.Proper

def Line.tokens (line : Line) : List Token := line.pieces.map Piece.token

theorem Line.toList_text (line : Line) :
    line.text.toList = (List.replicate line.depth "  ").flatMap String.toList ++
      (pieceChars line.pieces ++ ['\n']) := by
  simp [Line.text, pieceChars, String.toList_join, List.flatMap_map]

/-- Tokens line by line: those of the first list on the line of the given number, and so on. -/
def OnLines : Nat → List (List Token) → List PlacedToken → Prop
  | _, [], placed => placed = []
  | line, tokens :: rest, placed =>
    ∃ first more, placed = first ++ more ∧ OnLine line tokens first ∧ OnLines (line + 1) rest more

theorem OnLines.le {first : Nat} {lines : List (List Token)} {placed : List PlacedToken}
    (onLines : OnLines first lines placed) : ∀ t ∈ placed, first ≤ t.line := by
  induction lines generalizing first placed with
  | nil =>
    cases onLines
    simp
  | cons tokens rest ih =>
    obtain ⟨head, more, rfl, onLine, later⟩ := onLines
    intro t mem
    rcases List.mem_append.mp mem with inHead | inRest
    · exact Nat.le_of_eq (onLine.lines t inHead).symm
    · exact Nat.le_of_succ_le (ih later t inRest)

theorem tokensFrom_line {line : Line} (legible : line.Legible) (pos : Pos) :
    ∃ placed, OnLine pos.line line.tokens placed ∧
      ∀ rest ts, tokensFrom 0 ⟨pos.line + 1, 1⟩ rest = .ok ts →
        tokensFrom 0 pos (line.text.toList ++ rest) = .ok (placed ++ ts) := by
  have blanks : ∀ c ∈ (List.replicate line.depth "  ").flatMap String.toList,
      Text.isBlank c = true := by
    intro c mem
    obtain ⟨indent, inside, char⟩ := List.mem_flatMap.mp mem
    rw [List.eq_of_mem_replicate inside] at char
    have space : c = ' ' := by simpa using char
    rw [space]
    decide
  have clean : '\n' ∉ (List.replicate line.depth "  ").flatMap String.toList := by
    intro mem
    obtain ⟨indent, inside, char⟩ := List.mem_flatMap.mp mem
    rw [List.eq_of_mem_replicate inside] at char
    exact absurd char (by decide)
  obtain ⟨placed, onLine, read⟩ := tokensFrom_pieces legible.apart legible.proper
    (pos.after ((List.replicate line.depth "  ").flatMap String.toList))
  rw [Pos.line_after clean] at onLine read
  refine ⟨placed, onLine, ?_⟩
  intro rest ts later
  rw [Line.toList_text, List.append_assoc, tokensFrom_blanks blanks, List.append_assoc]
  exact read rest ts later

/-- A text of legible lines is read line by line. -/
theorem tokensFrom_lines {lines : List Line} (legible : ∀ line ∈ lines, line.Legible) (first : Nat) :
    ∃ placed, OnLines first (lines.map Line.tokens) placed ∧
      tokensFrom 0 ⟨first, 1⟩ (lines.flatMap fun line => line.text.toList) = .ok placed := by
  induction lines generalizing first with
  | nil => exact ⟨[], rfl, rfl⟩
  | cons line rest ih =>
    obtain ⟨head, onLine, read⟩ := tokensFrom_line (legible line (by simp)) ⟨first, 1⟩
    obtain ⟨more, onLines, readRest⟩ := ih (fun other mem => legible other (by simp [mem])) (first + 1)
    refine ⟨head ++ more, ⟨head, more, rfl, onLine, onLines⟩, ?_⟩
    rw [List.flatMap_cons]
    exact read _ _ readRest

theorem tokens_lines {lines : List Line} (legible : ∀ line ∈ lines, line.Legible) :
    ∃ placed, OnLines 1 (lines.map Line.tokens) placed ∧
      Lexer.tokens (String.join (lines.map Line.text)) = .ok placed := by
  obtain ⟨placed, onLines, read⟩ := tokensFrom_lines legible 1
  refine ⟨placed, onLines, ?_⟩
  unfold Lexer.tokens
  rw [String.toList_join, List.flatMap_map]
  exact read

end RngLowering
